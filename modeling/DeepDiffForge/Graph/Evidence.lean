import DeepDiffForge.Core.Seal
import DeepDiffForge.Graph.Lexical
import DeepDiffForge.Lib.Slices

/-! Code evidence: what the changed lines of a patch do, found in the patch alone by one table of
rules, and pointed at by hunk address and line. -/

namespace DeepDiffForge.Graph
open Text DeepDiffForge.Core

/-- What part of a line a rule reads: comments and string contents blanked, or as written. -/
inductive RuleView where
  | code | raw
  deriving DecidableEq, Repr

inductive Scope where
  | languages (of : List Language)
  | any
  | ciWorkflow
  | buildScript
  | packageJson
  deriving DecidableEq, Repr

/-- What a rule looks for; a trailing `*` makes a token the beginning of a word. -/
inductive Match where
  | tokens (tokens : List String)
  | anyCode
  | secret
  | imports (modules : List String)
  deriving DecidableEq, Repr

structure Rule where
  signal : EvidenceSignal
  side : Side
  view : RuleView
  scope : Scope
  matches' : Match
  deriving DecidableEq, Repr

def rules : List Rule := [
  ⟨.unsafeAdded, .new, .code, .languages [.rust], .tokens ["unsafe"]⟩,
  ⟨.processSpawn, .new, .code, .languages [.rust], .tokens ["Command::new", "process::Command"]⟩,
  ⟨.processSpawn, .new, .code, .languages [.python],
    .tokens ["subprocess.", "os.system(", "os.popen(", "os.exec*", "os.spawn*", "pty.spawn("]⟩,
  ⟨.processSpawn, .new, .code, .languages [.javaScript],
    .tokens ["child_process", "execSync(", "spawnSync(", "execFileSync("]⟩,
  ⟨.processSpawn, .new, .code, .languages [.javaScript], .imports ["child_process"]⟩,
  ⟨.processSpawn, .new, .code, .languages [.go],
    .tokens ["exec.Command(", "exec.CommandContext(", "syscall.Exec("]⟩,
  ⟨.networkFetch, .new, .code, .languages [.rust],
    .tokens ["reqwest::", "ureq::", "TcpStream::connect", "UdpSocket::bind"]⟩,
  ⟨.networkFetch, .new, .code, .languages [.python],
    .tokens ["requests.", "urllib.request", "http.client", "socket.socket("]⟩,
  ⟨.networkFetch, .new, .code, .languages [.javaScript],
    .tokens ["fetch(", "XMLHttpRequest", "http.request(", "https.request("]⟩,
  ⟨.networkFetch, .new, .code, .languages [.go],
    .tokens ["http.Get(", "http.Post(", "http.NewRequest(", "net.Dial("]⟩,
  ⟨.networkFetch, .new, .code, .languages [.shell, .yaml], .tokens ["curl", "wget"]⟩,
  ⟨.dynamicEval, .new, .code, .languages [.python],
    .tokens ["eval(", "exec(", "compile(", "__import__("]⟩,
  ⟨.dynamicEval, .new, .code, .languages [.javaScript], .tokens ["eval(", "new Function("]⟩,
  ⟨.dynamicEval, .new, .code, .languages [.shell], .tokens ["eval"]⟩,
  ⟨.ciPrivilege, .new, .code, .ciWorkflow,
    .tokens ["pull_request_target", "write-all", "contents: write", "id-token: write",
      "packages: write", "actions: write", "secrets: inherit"]⟩,
  ⟨.buildHook, .new, .code, .buildScript, .anyCode⟩,
  ⟨.buildHook, .new, .raw, .packageJson,
    .tokens ["\"preinstall\"", "\"install\"", "\"postinstall\"", "\"prepare\""]⟩,
  ⟨.secretLike, .new, .raw, .any, .secret⟩,
  ⟨.checkSuppressed, .new, .raw, .languages [.rust], .tokens ["#[allow(", "#![allow("]⟩,
  ⟨.checkSuppressed, .new, .raw, .languages [.python],
    .tokens ["# noqa", "#noqa", "# type: ignore", "# nosec", "# pragma: no cover"]⟩,
  ⟨.checkSuppressed, .new, .raw, .languages [.javaScript],
    .tokens ["eslint-disable", "@ts-ignore", "@ts-nocheck", "@ts-expect-error"]⟩,
  ⟨.checkSuppressed, .new, .raw, .languages [.go], .tokens ["//nolint", "// nolint", "#nosec"]⟩,
  ⟨.testRemoved, .old, .code, .languages [.rust],
    .tokens ["#[test]", "#[tokio::test]", "#[rstest]"]⟩,
  ⟨.testRemoved, .old, .code, .languages [.python], .tokens ["def test*", "async def test*"]⟩,
  ⟨.testRemoved, .old, .code, .languages [.javaScript], .tokens ["it(", "test(", "describe("]⟩,
  ⟨.testRemoved, .old, .code, .languages [.go], .tokens ["func Test*"]⟩]

structure FileKind where
  language : Option Language
  ciWorkflow : Bool
  buildScript : Bool
  packageJson : Bool
  deriving DecidableEq, Repr

namespace FileKind

def firstLine (file : ReviewFile) : Option Str :=
  ((file.patchTwin.hunks.head?.filter (·.newStart = some 1)).bind fun hunk =>
    hunk.lines.find? (·.kind ≠ .removed)).map (·.text)

def of (file : ReviewFile) : FileKind where
  language := Language.of file.path (firstLine file)
  ciWorkflow :=
    ((startsWith ".github/workflows/".toList file.path ||
        contains "/.github/workflows/".toList file.path) &&
      Language.of file.path none = some .yaml) ||
      basename file.path = ".gitlab-ci.yml".toList
  buildScript :=
    (basename file.path = "build.rs".toList || basename file.path = "setup.py".toList) &&
      !isGeneratedOrVendored file.path
  packageJson := basename file.path = "package.json".toList && !isGeneratedOrVendored file.path

def admits (kind : FileKind) : Scope → Bool
  | .any => true
  | .languages languages => kind.language.any (· ∈ languages)
  | .ciWorkflow => kind.ciWorkflow
  | .buildScript => kind.buildScript
  | .packageJson => kind.packageJson

end FileKind

section Matching

/-- The positions at which a pattern occurs, none inside another; `skip` bytes of one are left. -/
def matchesFrom (pattern : Bytes) : Nat → Nat → Bytes → List Nat
  | _, _, [] => []
  | 0, i, byte :: rest =>
      if startsWith pattern (byte :: rest) then
        i :: matchesFrom pattern (pattern.length - 1) (i + 1) rest
      else matchesFrom pattern 0 (i + 1) rest
  | skip + 1, i, _ :: rest => matchesFrom pattern skip (i + 1) rest

/-- `str::match_indices`. -/
def matchIndices (pattern text : Bytes) : List Nat := matchesFrom pattern 0 0 text

def startsWord (text : Bytes) (i : Nat) : Bool :=
  !(text.take i).getLast?.any isBoundaryBlocker

def hasToken (text token : Bytes) : Bool :=
  (matchIndices token text).any fun i =>
    startsWord text i &&
      (!token.getLast?.any isIdent || !(text[i + token.length]?).any isIdent)

def tokenIn (text token : Bytes) : Bool :=
  if token.getLast? = some (sign '*') then (matchIndices token.dropLast text).any (startsWord text)
  else hasToken text token

def isUpper (b : UInt8) : Bool := 65 ≤ b && b ≤ 90

def isDigit (b : UInt8) : Bool := 48 ≤ b && b ≤ 57

def isAlphanumeric (b : UInt8) : Bool := isDigit b || isUpper b || (97 ≤ b && b ≤ 122)

/-- Whether a token of this beginning, and at least so many more bytes, stands in the text. -/
def secretTail (text start : Bytes) (least : Nat) (ok : UInt8 → Bool) : Bool :=
  (matchIndices start text).any fun i =>
    !(text.take i).getLast?.any isAlphanumeric &&
      least ≤ ((text.drop (i + start.length)).takeWhile ok).length

/-- A private key header, or a cloud, forge or chat token by its fixed beginning and length. -/
def looksLikeSecret (text : Bytes) : Bool :=
  (ascii "-----BEGIN" <:+: text && ascii "PRIVATE KEY" <:+: text) ||
    secretTail text (ascii "AKIA") 16 (fun b => isUpper b || isDigit b) ||
    ["ghp_", "gho_", "ghs_", "ghu_", "ghr_"].any (fun start =>
      secretTail text (ascii start) 36 isAlphanumeric) ||
    ["xoxb-", "xoxp-", "xoxa-", "xoxr-"].any (fun start =>
      secretTail text (ascii start) 10 fun b => isAlphanumeric b || b = sign '-') ||
    secretTail text (ascii "sk_live_") 16 isAlphanumeric

end Matching

section Imports
variable (code raw : Bytes)

def specifierAt (i : Nat) (keyword : Bytes) : Option Bytes :=
  let before := code.take i
  let receiverOk := !before.getLast?.any isBoundaryBlocker ||
    (keyword = ascii "require" && (ascii "module.").isSuffixOf before)
  let after := i + keyword.length
  if !receiverOk || (code[after]?).any isIdent ||
      (keyword = ascii "import" &&
        "typeof".toList.isSuffixOf ((fromUtf8OrDefault before).rdropWhile isWhitespace)) then none
  else
    let gap := (code.drop after).takeWhile fun b => isAsciiWhitespace b || b = sign '('
    let q := after + gap.length
    if keyword = ascii "require" && !(sign '(' ∈ gap) then none
    else do
      let quote ← code[q]?.filter (· ∈ ascii "\"'\x60")
      let name ← if q + 1 ≤ raw.length ∧ Slices.isCharBoundary raw (q + 1) = true then
        some (raw.drop (q + 1)) else none
      if quote ∈ name then
        let name := name.takeWhile (· ≠ quote)
        some ((stripPrefix (ascii "node:") name).getD name)
      else none

/-- Whether a statement that starts at a position loads nothing. -/
def typeOnly (start : Nat) : Bool :=
  let head := (fromUtf8OrDefault (code.drop start)).dropWhile isWhitespace
  startsWith "import type ".toList head || startsWith "export type ".toList head

/-- The keyword hits in line order: the last hit, where the statement it is in starts, and whether
that statement loads nothing, once known. -/
def importsFrom (modules : List Bytes) :
    Nat → Nat → Option Bool → List (Nat × Bytes) → Bool
  | _, _, _, [] => false
  | seen, start, known, (i, keyword) :: hits =>
      let semi := rfind [sign ';'] ((code.drop seen).take (i - seen))
      let start := semi.elim start (seen + · + 1)
      let known := if semi.isSome then none else known
      let skip := known.getD (typeOnly code start)
      (!skip && (specifierAt code raw i keyword).any fun name => modules.any fun m => m = name) ||
        importsFrom modules i start (some skip) hits

def importsModule (modules : List Bytes) : Bool :=
  let hits := ["require", "import", "from"].flatMap fun keyword =>
    (matchIndices (ascii keyword) code).map fun i => (i, ascii keyword)
  importsFrom code raw modules 0 0 none (hits.mergeSort fun one two => one.1 ≤ two.1)

end Imports

def Rule.hits (rule : Rule) (line : Str) (view : Option Str) : Bool :=
  let text := match rule.view with
    | .raw => line
    | .code => view.getD line
  match rule.matches' with
  | .tokens tokens => tokens.any fun token => tokenIn (Utf8.encode text) (ascii token)
  | .anyCode => trim text ≠ []
  | .secret => looksLikeSecret (Utf8.encode text)
  | .imports modules => importsModule (Utf8.encode text) (Utf8.encode line) (modules.map ascii)

def lineSignals (rules : List Rule) (side : Side) (line : Str) (view : Option Str) :
    List EvidenceSignal :=
  EvidenceSignal.all.filter fun signal =>
    (rules.filter fun rule => rule.signal = signal && rule.side = side).any (·.hits line view)

def viewed (language : Option Language) (line : Str) (state : ScanState) :
    Option Str × ScanState :=
  match language with
  | some language => ((codeView language line state).map some id)
  | none => (none, state)

section Hunks
variable (language : Option Language) (rules : List Rule)

/-- The signals on the changed lines that follow, what each side left open given. -/
def matchesOf : ScanState → ScanState → List PatchLine → List (Side × EvidenceSignal × Nat)
  | _, _, [] => []
  | old, new, line :: lines =>
      match line.kind with
      | .context =>
          matchesOf (viewed language line.text old).2 (viewed language line.text new).2 lines
      | .added =>
          let (view, new) := viewed language line.text new
          (line.newLine.toList.flatMap fun number =>
            (lineSignals rules .new line.text view).map fun signal => (.new, signal, number)) ++
            matchesOf old new lines
      | .removed =>
          let (view, old) := viewed language line.text old
          (line.oldLine.toList.flatMap fun number =>
            (lineSignals rules .old line.text view).map fun signal => (.old, signal, number)) ++
            matchesOf old new lines

def hunkMatches (hunk : PatchHunk) : List (Side × EvidenceSignal × Nat) :=
  matchesOf language rules {} {} hunk.lines

end Hunks

def rulesFor (kind : FileKind) : List Rule := rules.filter (kind.admits ·.scope)

def fileEvidence (file : ReviewFile) : List Evidence :=
  let kind := FileKind.of file
  if rulesFor kind = [] then []
  else file.patchTwin.hunks.flatMap fun hunk =>
    (hunkMatches kind.language (rulesFor kind) hunk).map fun (side, signal, line) =>
      { signal, hunk := hunk.id, address := hunk.address file.path, side, line }

def hunkSignals (file : ReviewFile) (hunk : PatchHunk) : List EvidenceSignal :=
  let kind := FileKind.of file
  let found := hunkMatches kind.language (rulesFor kind) hunk
  EvidenceSignal.all.filter fun signal => found.any fun item => item.2.1 = signal

def lexical : Scan := { fileEvidence, hunkSignals }

end DeepDiffForge.Graph

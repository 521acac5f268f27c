import DeepDiffForge.Core.Hazards
import Mathlib.Data.List.Infix

/-! The risk score of a file, from its path, status, size, hazards, modes and code evidence. The
rules that find evidence in code are a parameter here: scores and orders use nothing else of
them. -/

namespace DeepDiffForge.Graph
open Text DeepDiffForge.Core

inductive EvidenceSignal where
  | unsafeAdded | processSpawn | networkFetch | dynamicEval | ciPrivilege | buildHook | secretLike
  | checkSuppressed | testRemoved
  deriving DecidableEq, Repr

def EvidenceSignal.all : List EvidenceSignal :=
  [.unsafeAdded, .processSpawn, .networkFetch, .dynamicEval, .ciPrivilege, .buildHook, .secretLike,
    .checkSuppressed, .testRemoved]

def EvidenceSignal.label : EvidenceSignal → Str
  | .unsafeAdded => "unsafe_added".toList
  | .processSpawn => "process_spawn".toList
  | .networkFetch => "network_fetch".toList
  | .dynamicEval => "dynamic_eval".toList
  | .ciPrivilege => "ci_privilege".toList
  | .buildHook => "build_hook".toList
  | .secretLike => "secret_like".toList
  | .checkSuppressed => "check_suppressed".toList
  | .testRemoved => "test_removed".toList

def EvidenceSignal.weight : EvidenceSignal → Nat
  | .secretLike => 5
  | .unsafeAdded | .processSpawn | .dynamicEval | .ciPrivilege => 4
  | .networkFetch | .buildHook | .testRemoved => 3
  | .checkSuppressed => 2

inductive Side where
  | new | old
  deriving DecidableEq, Repr

def Side.label : Side → Str
  | .new => "new".toList
  | .old => "old".toList

structure Evidence where
  signal : EvidenceSignal
  hunk : HunkId
  address : Str
  side : Side
  line : Nat
  deriving DecidableEq, Repr

structure Scan where
  fileEvidence : ReviewFile → List Evidence
  hunkSignals : ReviewFile → PatchHunk → List EvidenceSignal

/-- A scan that finds nothing. -/
def quietScan : Scan := ⟨fun _ => [], fun _ _ => []⟩

inductive RiskSignal where
  | publicApiSurface | newFile | deletedFile | binaryChange | largeChange | manyHunks
  | configOrLockfile | testOnly | generatedOrVendored | hazardousText | symlinkChange
  | executableBit
  | code (signal : EvidenceSignal)
  deriving DecidableEq, Repr

def RiskSignal.label : RiskSignal → Str
  | .publicApiSurface => "public_api_surface".toList
  | .newFile => "new_file".toList
  | .deletedFile => "deleted_file".toList
  | .binaryChange => "binary_change".toList
  | .largeChange => "large_change".toList
  | .manyHunks => "many_hunks".toList
  | .configOrLockfile => "config_or_lockfile".toList
  | .testOnly => "test_only".toList
  | .generatedOrVendored => "generated_or_vendored".toList
  | .hazardousText => "hazardous_text".toList
  | .symlinkChange => "symlink_change".toList
  | .executableBit => "executable_bit".toList
  | .code signal => signal.label

def largeChangeLines : Nat := 80

def manyHunks : Nat := 5

abbrev Scored := Nat × List RiskSignal

def Scored.add (scored : Scored) (signal : RiskSignal) (weight : Nat) : Scored :=
  (scored.1 + weight, scored.2 ++ [signal])

def changeCounts (file : ReviewFile) : Nat × Nat :=
  let lines := file.patchTwin.hunks.flatMap (·.lines)
  (lines.countP (·.kind = .added), lines.countP (·.kind = .removed))

def basename (path : Str) : Str := (path.splitOn '/').getLastD path

def contains (piece path : Str) : Bool := decide (piece <:+: path)

def isPublicApi (path : Str) : Bool :=
  basename path = "lib.rs".toList || basename path = "mod.rs".toList ||
  contains "/api/".toList path

def isTest (path : Str) : Bool :=
  contains "/tests/".toList path || startsWith "tests/".toList path ||
  contains "/test/".toList path || contains "_test.".toList (basename path) ||
  contains ".test.".toList (basename path)

def configNames : List String :=
  ["Cargo.toml", "Cargo.lock", "package.json", "package-lock.json", "deny.toml", "rustfmt.toml"]

def configEndings : List String := ["toml", "yaml", "yml", "ini", "cfg", "lock"]

def isConfigOrLockfile (path : Str) : Bool :=
  let base := basename path
  configNames.any (·.toList = base) ||
  configEndings.any (·.toList = (base.splitOn '.').getLastD base)

def generatedDirs : List String := ["vendor", "node_modules", "target", "generated", "dist"]

def generatedEndings : List String := [".min.js", ".pb.rs", ".pb.go"]

def isGeneratedOrVendored (path : Str) : Bool :=
  (path.splitOn '/').any (fun c => generatedDirs.any (·.toList = c)) ||
  generatedEndings.any (·.toList.isSuffixOf path)

def statusWeight (file : ReviewFile) (scored : Scored) : Scored :=
  match file.status with
  | .added => scored.add .newFile 2
  | .deleted => scored.add .deletedFile 3
  | .binaryChanged => scored.add .binaryChange 1
  | _ => scored

def hazardWeight (file : ReviewFile) (scored : Scored) : Scored :=
  let inLines := (file.patchTwin.hunks.flatMap (·.lines)).any fun line =>
    line.kind ≠ .context && textHazards line.text ≠ []
  let fromHazardous := (file.patchTwin.metadata.filterMap fun m =>
      (stripPrefix "rename from ".toList m).or (stripPrefix "copy from ".toList m)).any
    fun source => pathHazards source ≠ []
  if inLines || fromHazardous || pathHazards file.path ≠ [] then scored.add .hazardousText 3
  else scored

/-- `u32::from_str_radix(mode, 8)`. -/
def octal (mode : Str) : Option Nat :=
  let digits := (stripPrefix ['+'] mode).getD mode
  if digits ≠ [] ∧ digits.all (fun c => inRange 48 55 c) ∧ Nat.ofDigitChars 8 digits 0 ≤ u32Max then
    some (Nat.ofDigitChars 8 digits 0)
  else none

def modes (file : ReviewFile) (beginnings : List String) : List Nat :=
  (file.patchTwin.metadata.filterMap fun m =>
    beginnings.findSome? fun start => stripPrefix start.toList m).filterMap octal

def isSymlink (mode : Nat) : Bool := mode &&& 0o170000 = 0o120000

def isExecutable (mode : Nat) : Bool := mode &&& 0o170000 = 0o100000 && mode &&& 0o111 ≠ 0

def modeWeight (file : ReviewFile) (scored : Scored) : Scored :=
  let old := modes file ["old mode ", "deleted file mode "]
  let new := modes file ["new mode ", "new file mode "]
  let scored := if (old ++ new).any isSymlink then scored.add .symlinkChange 3 else scored
  if new.any isExecutable && !old.any isExecutable then scored.add .executableBit 2 else scored

/-- The score and signals from everything but code evidence. -/
def scorePathAndShape (file : ReviewFile) : Scored :=
  let path := file.path
  let common (scored : Scored) := modeWeight file (hazardWeight file (statusWeight file scored))
  if isGeneratedOrVendored path then common (1, [.generatedOrVendored])
  else
    let test := isTest path
    let config := isConfigOrLockfile path
    let scored : Scored := (if !test && !config then 2 else 1, [])
    let scored := if isPublicApi path then scored.add .publicApiSurface 5 else scored
    let scored :=
      if test then scored.add .testOnly 0
      else if config then scored.add .configOrLockfile 1
      else scored
    let scored := common scored
    let (adds, dels) := changeCounts file
    let scored := if largeChangeLines ≤ adds + dels then scored.add .largeChange 3 else scored
    if manyHunks ≤ file.patchTwin.hunks.length then scored.add .manyHunks 2 else scored

structure Assessment where
  score : Nat
  signals : List RiskSignal
  evidence : List Evidence

/-- A signal found adds its weight once; on a test path it counts half, rounded up, except a
removed test. -/
def codeWeight (test : Bool) (evidence : List Evidence) (scored : Scored)
    (signal : EvidenceSignal) : Scored :=
  if evidence.any (·.signal = signal) then
    scored.add (.code signal)
      (if test && signal ≠ .testRemoved then (signal.weight + 1) / 2 else signal.weight)
  else scored

def assessFile (scan : Scan) (file : ReviewFile) : Assessment :=
  let evidence := scan.fileEvidence file
  let scored := EvidenceSignal.all.foldl (codeWeight (isTest file.path) evidence)
    (scorePathAndShape file)
  { score := scored.1, signals := scored.2, evidence }

def scoreFile (scan : Scan) (file : ReviewFile) : Scored :=
  ((assessFile scan file).score, (assessFile scan file).signals)

end DeepDiffForge.Graph

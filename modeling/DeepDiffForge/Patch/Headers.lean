import DeepDiffForge.Core.Review
import DeepDiffForge.Patch.Paths

/-! The readers of header lines: file modes, the names of `---`/`+++` and `diff --git` lines,
timestamps, and the `@@` grammar. -/

namespace DeepDiffForge.Patch
open Text DeepDiffForge.Core

def metaPrefixes : List Str :=
  ["old mode ".toList, "new mode ".toList, "new file mode ".toList, "deleted file mode ".toList,
    "index ".toList, "similarity index ".toList, "dissimilarity index ".toList,
    "copy from ".toList, "copy to ".toList, "GIT binary patch".toList, "Binary files ".toList]

def modePrefixes : List Str :=
  ["old mode ".toList, "new mode ".toList, "new file mode ".toList, "deleted file mode ".toList]

def movePrefixes : List Str :=
  ["rename from ".toList, "rename to ".toList, "copy from ".toList, "copy to ".toList]

def startsWithAny (prefixes : List Str) (line : Str) : Bool :=
  prefixes.any (fun p => startsWith p line)

def octalValue (mode : Str) : Nat := mode.foldl (fun value c => value * 8 + (c.toNat - 48)) 0

def parseMode (mode : Str) : Option Nat :=
  if mode ≠ [] ∧ mode.length ≤ 6 ∧ mode.all octalDigit then some (octalValue mode) else none

/-- The object type bits of a mode, `mode & 0o170000`. -/
def objectType (mode : Nat) : Nat := mode / 4096 % 16

def canonMode (mode : Nat) : Nat :=
  if objectType mode = 8 then if mode / 64 % 2 = 1 then 33261 else 33188
  else if objectType mode = 10 then 40960
  else if objectType mode = 4 then 16384
  else 57344

def gitRefusesPath (path : Str) : Bool :=
  path = [] || startsWith ['/'] path ||
    (path.splitOn '/').any (fun c => c = ['.'] || c = ['.', '.'] ||
      c.map Char.toLower = ".git".toList)

def devNull : Str := "/dev/null".toList

/-- Each run of `/` becomes one; `last` says the character before is a slash. -/
def squashAfter : Bool → Str → Str
  | _, [] => []
  | last, c :: rest =>
      if c = '/' && last then squashAfter true rest else c :: squashAfter (c = '/') rest

def squashSlashes (path : Str) : Str := squashAfter false path

/-- The path after its first component; all of it when it has no `/`, or under `-p0`. -/
def headerHalf (path : Str) (p0 : Bool) : Str :=
  if p0 then path
  else match splitOnce '/' path with
    | some (_, rest) => rest
    | none => path

def pName (path : Str) (p0 : Bool) : Str := squashSlashes (headerHalf path p0)

def stripP (path : Str) (p0 : Bool) : Option Str :=
  match (if p0 then some path else (splitOnce '/' path).map Prod.snd) with
  | some rest => if rest = [] then none else some rest
  | none => none

def skipTreePrefix (name : Str) (p0 : Bool) : Option Str :=
  if p0 then if startsWith ['/'] name then none else some name
  else match splitOnce '/' name with
    | none => none
    | some ([], _) => none
    | some (_ :: _, rest) => some rest

/-- The loop of `same_name_halves` over the positions of spaces and tabs; `slash` is the last
`/` found. -/
def sameNameLoop (name : Str) (p0 : Bool) : List Nat → Nat → Option Str
  | [], _ => none
  | place :: later, slash =>
      let start := place + 1
      if start = name.length then none
      else if p0 then
        if name[start]? = some '/' then none
        else if name.length - start = place ∧ name.drop start = name.take place then
          some (name.take place)
        else sameNameLoop name p0 later slash
      else
        let begin' := max slash start
        match (name.drop begin').findIdx? (· = '/') with
        | none => none
        | some offset =>
            let slash := begin' + offset
            if slash = start then none
            else if name.length - (slash + 1) = place ∧ name.drop (slash + 1) = name.take place then
              some (name.take place)
            else sameNameLoop name p0 later slash

def separators (name : Str) : List Nat :=
  (List.range name.length).filter (fun i => name[i]? = some ' ' || name[i]? = some '\t')

def sameNameHalves (rest : Str) (p0 : Bool) : Option Str :=
  match skipTreePrefix rest p0 with
  | none => none
  | some name =>
      match splitOnce '"' name with
      | some (before, after) =>
          match decodeQuotedPrefix ('"' :: after) with
          | none => none
          | some (decoded, _) =>
              match skipTreePrefix decoded p0 with
              | none => none
              | some second =>
                  match stripPrefix second before with
                  | some (c :: _) =>
                      if c = ' ' || c = '\t' || c = '\r' then some second else none
                  | _ => none
      | none => sameNameLoop name p0 (separators name) 0

/-- `char::is_whitespace`. -/
def whitespace (c : Char) : Bool :=
  (9 ≤ c.toNat && c.toNat ≤ 13) || c.toNat = 0x20 || c.toNat = 0x85 || c.toNat = 0xA0 ||
  c.toNat = 0x1680 || (0x2000 ≤ c.toNat && c.toNat ≤ 0x200A) || c.toNat = 0x2028 ||
  c.toNat = 0x2029 || c.toNat = 0x202F || c.toNat = 0x205F || c.toNat = 0x3000

def trimStart (text : Str) : Str := text.dropWhile whitespace

def digitByte (b : UInt8) : Bool := 48 ≤ b.toNat && b.toNat ≤ 57

def digitBytes (bytes : List UInt8) : Bool := bytes.all digitByte

/-- The last `n` bytes, when there are that many. -/
def lastBytes (n : Nat) (s : List UInt8) : List UInt8 :=
  if s.length < n then [] else s.drop (s.length - n)

def saneTz (s : List UInt8) : Nat :=
  match lastBytes 6 s with
  | [sp, sign, a, b, c, d] =>
      if sp = 32 && (sign = 43 || sign = 45) && digitBytes [a, b, c, d] then 6 else 0
  | _ => 0

def colonTz (s : List UInt8) : Nat :=
  match lastBytes 7 s with
  | [sp, sign, a, b, colon, c, d] =>
      if sp = 32 && (sign = 43 || sign = 45) && digitBytes [a, b] && colon = 58 &&
        digitBytes [c, d] then 7 else 0
  | _ => 0

def shortTime (s : List UInt8) : Nat :=
  match lastBytes 9 s with
  | [sp, a, b, colon, c, d, colon', e, f] =>
      if sp = 32 && digitBytes [a, b] && colon = 58 && digitBytes [c, d] && colon' = 58 &&
        digitBytes [e, f] then 9 else 0
  | _ => 0

def trailing (p : UInt8 → Bool) (s : List UInt8) : Nat := (s.reverse.takeWhile p).length

def fractionalTime (s : List UInt8) : Nat :=
  let whole := s.length - trailing digitByte s
  if whole = s.length ∨ whole = 0 ∨ s[whole - 1]? ≠ some 46 then 0
  else match shortTime (s.take (whole - 1)) with
    | 0 => 0
    | n => s.length - (whole - 1) + n

def dateLen (s : List UInt8) : Nat :=
  match lastBytes 8 s with
  | [a, b, dash, c, d, dash', e, f] =>
      if digitBytes [a, b] && dash = 45 && digitBytes [c, d] && dash' = 45 && digitBytes [e, f]
      then
        if 10 ≤ s.length ∧ digitBytes ((s.drop (s.length - 10)).take 2) then 10 else 8
      else 0
  | _ => 0

def timestampLen (line : List UInt8) : Nat :=
  if !(line.getLast?.any digitByte) then 0
  else
    let zone := match saneTz line with
      | 0 => colonTz line
      | n => n
    let undated := line.length - zone
    let time := match shortTime (line.take undated) with
      | 0 => fractionalTime (line.take undated)
      | n => n
    let untimed := undated - time
    match dateLen (line.take untimed) with
    | 0 => 0
    | n =>
        let stop := untimed - n
        match (line.take stop).getLast? with
        | some 9 => line.length - (stop - 1)
        | some 32 => line.length - (stop - trailing (· = 32) (line.take stop))
        | _ => 0

/-- `str::get(..n)`: the characters of the first `n` bytes, when `n` is a character boundary. -/
def takeBytes : Nat → Str → Option Str
  | 0, _ => some []
  | _ + 1, [] => none
  | n + 1, c :: rest =>
      if c.utf8Size ≤ n + 1 then (takeBytes (n + 1 - c.utf8Size) rest).map (c :: ·) else none

def headerName (rest : Str) (dated : Bool) : Option Str :=
  let null := match stripPrefix devNull rest with
    | some [] => true
    | some (c :: _) => c = ' ' || c = '\t' || c = '\r'
    | none => false
  if null then some devNull
  else if startsWith ['"'] rest then decodePath (rest.takeWhile (· ≠ '\t'))
  else
    let bytes := Utf8.encode rest
    let stamp := if dated then timestampLen bytes else 0
    if 0 < stamp then (takeBytes (bytes.length - stamp) rest).bind decodePath
    else decodePath (rest.takeWhile (fun c => c ≠ '\t' && c ≠ '\r'))

def digit (c : Char) : Bool := '0' ≤ c && c ≤ '9'

def twoDigits (a b first : Char) : Option Int :=
  if digit a && digit b && a ≤ first then some ((a.toNat - 48) * 10 + (b.toNat - 48)) else none

def epochZone (zone : Str) : Option Int :=
  match zone with
  | [h, h', ':', m, m'] | [h, h', m, m'] =>
      match twoDigits h h' '2', twoDigits m m' '5' with
      | some hour, some minute => some (hour * 60 + minute)
      | _, _ => none
  | _ => none

def epochFraction (rest : Str) : Option Str :=
  match rest with
  | '.' :: fraction =>
      if fraction.head? = some '0' then some (fraction.dropWhile (· = '0')) else none
  | _ => some rest

def hasEpochTimestamp (rest : Str) : Bool :=
  match rsplitOnce '\t' rest with
  | none => false
  | some (_, stamp) =>
      let known := match stripPrefix "1969-12-31 ".toList stamp with
        | some time => some ((24 : Int), time)
        | none => (stripPrefix "1970-01-01 ".toList stamp).map (fun time => ((0 : Int), time))
      match known with
      | some (epochHour, h :: h' :: ':' :: m :: m' :: ':' :: '0' :: '0' :: after) =>
          match twoDigits h h' '2', twoDigits m m' '5', epochFraction after with
          | some hour, some minute, some (' ' :: sign :: zone) =>
              if sign = '+' || sign = '-' then
                match epochZone zone with
                | some offset =>
                    hour * 60 + minute - (if sign = '-' then -offset else offset) = epochHour * 60
                | none => false
              else false
          | _, _, _ => false
      | _ => false

structure HunkHeader where
  oldStart : Nat
  oldCount : Nat
  newStart : Nat
  newCount : Nat
  sectionHeading : Option Str
  deriving DecidableEq, Repr

/-- One or more ASCII digits from the front of a text, as a `u32`, and the text after them. -/
def takeDigits (text : Str) : Option (Nat × Str) :=
  let digits := text.takeWhile digit
  if digits = [] then none
  else if Nat.ofDigitChars 10 digits 0 ≤ u32Max then
    some (Nat.ofDigitChars 10 digits 0, text.dropWhile digit)
  else none

def takeRange (text : Str) : Option (Nat × Nat × Str) :=
  match takeDigits text with
  | none => none
  | some (start, ',' :: afterComma) =>
      (takeDigits afterComma).map (fun counted => (start, counted.1, counted.2))
  | some (start, rest) => some (start, 1, rest)

def parseHunkHeader (line : Str) : Option HunkHeader := do
  let rest ← stripPrefix "@@ -".toList line
  let (oldStart, oldCount, rest) ← takeRange rest
  let rest ← stripPrefix " +".toList rest
  let (newStart, newCount, rest) ← takeRange rest
  let after ← stripPrefix " @@".toList rest
  let heading ← if after = [] then some [] else stripPrefix [' '] after
  some { oldStart, oldCount, newStart, newCount,
         sectionHeading := if heading = [] then none else some heading }

example : parseHunkHeader "@@ -1,2 +3 @@ f".toList = some ⟨1, 2, 3, 1, some ['f']⟩ := by
  decide +kernel

def base85 : Str :=
  "0123456789ABCDEFGHIJKLMNOPQRSTUVWXYZabcdefghijklmnopqrstuvwxyz!#$%&()*+-;<=>?@^_`\x7b|\x7d~".toList

def isBinaryBodyLine (line : Str) : Bool :=
  match line with
  | [] => true
  | c :: data =>
      match (stripPrefix "literal ".toList line).orElse
          (fun _ => stripPrefix "delta ".toList line) with
      | some size => size ≠ [] && size.all digit
      | none =>
          let count :=
            if 'A' ≤ c && c ≤ 'Z' then some (c.toNat - 65 + 1)
            else if 'a' ≤ c && c ≤ 'z' then some (c.toNat - 97 + 27)
            else none
          match count with
          | some n => data.length = (n + 3) / 4 * 5 && data.all (· ∈ base85)
          | none => false

end DeepDiffForge.Patch

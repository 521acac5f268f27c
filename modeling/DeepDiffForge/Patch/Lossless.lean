import DeepDiffForge.Patch.Exactness
import DeepDiffForge.Patch.Veiled

/-! Lossy decoding changes no meaning: a hunk line is its bytes or is marked, and of a line that is
not UTF-8 a parsed patch has its mark and the text of its hunk line alone. -/

namespace DeepDiffForge.Patch
open Text DeepDiffForge.Core Markers

def hunkPieces (bytes : List UInt8) : List (List UInt8) :=
  markedLines (hunkMarks (fun piece => (pieceLine piece).text) 0 0 (pieces 0x0A bytes))

/-- A hunk line is lossy when its bytes are not UTF-8, else their text after the mark. -/
structure ReadFrom (piece : List UInt8) (line : PatchLine) : Prop where
  kind : bodyKind (pieceLine piece).text = some line.kind
  lossy : line.lossy = (Utf8.decode (bare 0x0A piece)).isNone
  clean : line.lossy = false → Utf8.encode line.text = (bare 0x0A piece).tail

/-- The same line, or two that are not UTF-8 and have the same first byte. -/
def Alike (piece other : List UInt8) : Prop :=
  piece = other ∨ Utf8.decode (bare 0x0A piece) = none ∧ Utf8.decode (bare 0x0A other) = none ∧
    (bare 0x0A piece).head? = (bare 0x0A other).head?

/-- What the parser reads of a line of bytes is read of what comes before its line feed. -/
theorem pieceLine_bare (bytes piece : List UInt8) (listed : piece ∈ pieces 0x0A bytes) :
    (pieceLine piece).text = Utf8.lossy (bare 0x0A piece) ∧
      (pieceLine piece).lossy = (Utf8.decode (bare 0x0A piece)).isNone := by
  obtain ⟨line, plain, rfl | ⟨rfl, present⟩⟩ := mem_pieces 0x0A bytes piece listed
  · have valid : (Utf8.decode (line ++ [0x0A])).isSome = (Utf8.decode line).isSome :=
      (Utf8.decode_append_lf line []).trans (Bool.and_true _)
    rw [pieceLine_line line plain, bare_append 0x0A line _ plain (.inr rfl)]
    refine ⟨rfl, ?_⟩
    rw [← Option.not_isSome, valid, Option.not_isSome]
  · have whole := bare_append 0x0A piece [] plain (.inl rfl)
    rw [List.append_nil] at whole
    rw [pieceLine_last piece plain, whole]
    exact ⟨rfl, rfl⟩

theorem bodyKind_starts (text : Str) :
    bodyKind text =
      if text = [] ∨ startsWith [' '] text then some .context
      else if startsWith ['+'] text then some .added
      else if startsWith ['-'] text then some .removed
      else none := by
  simp only [startsWith_single]
  cases text with
  | nil => rfl
  | cons c rest =>
    simp only [bodyKind, List.head?_cons, Option.any_some, reduceCtorEq, false_or,
      decide_eq_true_eq]
    by_cases blank : c = ' '
    · subst blank
      rfl
    by_cases plus : c = '+'
    · subst plus
      rfl
    by_cases minus : c = '-'
    · subst minus
      rfl
    rw [if_neg (Ne.symm blank), if_neg (Ne.symm plus), if_neg (Ne.symm minus)]
    simp [blank, plus, minus]

/-- The kind of a hunk line is told by its first byte. -/
theorem bodyKind_lossy (line other : List UInt8) (same : line.head? = other.head?) :
    bodyKind (Utf8.lossy line) = bodyKind (Utf8.lossy other) := by
  have starts (c : Char) (ascii : c.toNat < 0x80 ∧ c ≠ '\x00') :
      startsWith [c] (Utf8.lossy line) = startsWith [c] (Utf8.lossy other) := by
    rw [Utf8.startsWith_lossy _ _ (by simpa using ascii),
      Utf8.startsWith_lossy _ _ (by simpa using ascii)]
    rw [List.map_singleton, startsWith_single, startsWith_single, same]
  have empty : Utf8.lossy line = [] ↔ Utf8.lossy other = [] := by
    cases line with
    | nil =>
      cases other with
      | nil => rfl
      | cons b other => cases same
    | cons a line =>
      cases other with
      | nil => cases same
      | cons b other =>
        exact iff_of_false (lossy_ne_nil _ (List.cons_ne_nil _ _)) (lossy_ne_nil _ (List.cons_ne_nil _ _))
  rw [bodyKind_starts, bodyKind_starts, starts ' ' (by decide), starts '+' (by decide),
    starts '-' (by decide)]
  simp only [empty]

theorem tainted_bytes (bytes : List UInt8) :
    ∀ line ∈ byteLines bytes, line.lossy = true → '\uFFFD' ∈ line.text := by
  intro line listed lossy
  obtain ⟨piece, member, rfl⟩ := List.mem_map.1 listed
  obtain ⟨text, bad⟩ := pieceLine_bare bytes piece member
  rw [text]
  exact Utf8.mem_lossy _ (Option.isNone_iff_eq_none.1 (bad.symm.trans lossy))

theorem veil_alike (bytes others piece other : List UInt8) (listed : piece ∈ pieces 0x0A bytes)
    (listed' : other ∈ pieces 0x0A others) (alike : Alike piece other) :
    (pieceLine piece).veil = (pieceLine other).veil := by
  rcases alike with rfl | ⟨bad, bad', head⟩
  · rfl
  · obtain ⟨text, lossy⟩ := pieceLine_bare bytes piece listed
    obtain ⟨text', lossy'⟩ := pieceLine_bare others other listed'
    rw [bad, Option.isNone_none] at lossy
    rw [bad', Option.isNone_none] at lossy'
    rw [InputLine.veil, if_pos lossy, InputLine.veil, if_pos lossy', veilText, veilText, text, text',
      bodyKind_lossy _ _ head]

/-- A hunk line's mark is one byte. -/
theorem encode_tail (text : Str) (kind : PatchLineKind) (read : bodyKind text = some kind) :
    Utf8.encode text.tail = (Utf8.encode text).tail := by
  cases text with
  | nil => rfl
  | cons c rest =>
    have mark : c = ' ' ∨ c = '+' ∨ c = '-' := by
      rw [bodyKind_starts] at read
      simp only [startsWith_single, List.head?_cons, Option.any_some, reduceCtorEq, false_or,
        decide_eq_true_eq] at read
      split_ifs at read with blank plus minus
      · exact .inl blank.symm
      · exact .inr (.inl plus.symm)
      · exact .inr (.inr minus.symm)
    rw [Utf8.encode_cons]
    rcases mark with rfl | rfl | rfl <;> rfl

theorem readFrom_taken (bytes piece : List UInt8) (line : PatchLine)
    (listed : piece ∈ pieces 0x0A bytes) (taken : (pieceLine piece).taken = takenLine line) :
    ReadFrom piece line := by
  obtain ⟨own, bad⟩ := pieceLine_bare bytes piece listed
  obtain ⟨kind, lossy, text⟩ : bodyKind (pieceLine piece).text = some line.kind ∧
      (pieceLine piece).lossy = line.lossy ∧ (pieceLine piece).text.tail = line.text := by
    simpa [InputLine.taken, takenLine] using taken
  refine ⟨kind, lossy.symm.trans bad, fun exactly => ?_⟩
  rw [← lossy, bad] at exactly
  obtain ⟨read, decoded⟩ := Option.isSome_iff_exists.1 (Option.isNone_eq_false_iff.1 exactly)
  rw [← text, encode_tail _ _ kind, own, Utf8.lossy_decode _ _ decoded,
    Utf8.encode_decode _ _ decoded]

theorem markedLines_map {α β : Type} (f : α → β) (scanned : List (α × Bool)) :
    markedLines (scanned.map fun line => (f line.1, line.2)) = (markedLines scanned).map f := by
  rw [markedLines, List.filter_map, List.map_map, markedLines, List.map_map]
  rfl

theorem hunkPieces_bodies (bytes : List UInt8) (doc : Document) (shaped : doc.Shaped)
    (ends : ∀ part ∈ doc.sections, part.review.isSome) (lines : doc.lines = byteLines bytes) :
    (hunkPieces bytes).map pieceLine =
      ((doc.sections.flatMap (·.hunks)).flatMap (·.body)).map BodyLine.input := by
  rw [hunkPieces, ← markedLines_map, ← hunkMarks_map, ← byteLines, ← lines,
    document_marks doc shaped ends, markedLines_append, markedLines_plain, List.nil_append,
    markedLines_sections]

theorem hunkPieces_listed (bytes piece : List UInt8) (listed : piece ∈ hunkPieces bytes) :
    piece ∈ pieces 0x0A bytes := by
  rw [← hunkMarks_lines (fun piece => (pieceLine piece).text) 0 0 (pieces 0x0A bytes)]
  obtain ⟨line, held, rfl⟩ := List.mem_map.1 listed
  exact List.mem_map_of_mem (List.mem_of_mem_filter held)

theorem hunkLines_read (bytes : List UInt8) (doc : Document) (files : List ReviewFile)
    (shaped : doc.Shaped) (lines : doc.lines = byteLines bytes)
    (reviewed : doc.files = some files) :
    List.Forall₂ ReadFrom (hunkPieces bytes)
      ((files.flatMap (·.patchTwin.hunks)).flatMap (·.lines)) := by
  have bodies := hunkPieces_bodies bytes doc shaped (reviewFrom_isSome 0 _ _ reviewed) lines
  have taken : ((hunkPieces bytes).map pieceLine).map InputLine.taken =
      ((files.flatMap (·.patchTwin.hunks)).flatMap (·.lines)).map takenLine := by
    rw [bodies, reviewFrom_hunks 0 doc.sections files reviewed, taken_numberHunks]
  have pairs : List.Forall₂ (fun piece line => (pieceLine piece).taken = takenLine line)
      (hunkPieces bytes) ((files.flatMap (·.patchTwin.hunks)).flatMap (·.lines)) := by
    rw [List.map_map, ← List.forall₂_eq_eq_eq, List.forall₂_map_left_iff,
      List.forall₂_map_right_iff] at taken
    exact taken
  have listed := (List.forall₂_and_left (p := (· ∈ hunkPieces bytes)) _ _).2
    ⟨fun _ member => member, pairs⟩
  refine listed.imp fun piece line own => ?_
  exact readFrom_taken bytes piece line (hunkPieces_listed bytes piece own.1) own.2

theorem veil_bytes (bytes others : List UInt8)
    (alike : List.Forall₂ Alike (pieces 0x0A bytes) (pieces 0x0A others)) :
    (byteLines bytes).map InputLine.veil = (byteLines others).map InputLine.veil := by
  have both := (List.forall₂_and_left (p := (· ∈ pieces 0x0A bytes)) _ _).2
    ⟨fun _ member => member, alike⟩
  have both := (List.forall₂_and_left (p := (· ∈ pieces 0x0A others)) _ _).2
    ⟨fun _ member => member, both.flip⟩
  have same : List.Forall₂ (fun other piece => (pieceLine piece).veil = (pieceLine other).veil)
      (pieces 0x0A others) (pieces 0x0A bytes) :=
    both.imp fun other piece own => veil_alike bytes others piece other own.2.1 own.1 own.2.2
  rw [byteLines, byteLines, List.map_map, List.map_map, ← List.forall₂_eq_eq_eq,
    List.forall₂_map_left_iff, List.forall₂_map_right_iff]
  exact same.flip

/-- Each hunk line is what its bytes say; and whatever follows the first byte of a line that is not
UTF-8, no path, metadata, binary body, range, heading or other line of the result is changed. -/
theorem parse_lossless (bytes : List UInt8) (options : ParseOptions) (files : List ReviewFile)
    (accepted : parseDecoded (decodePatch bytes) options = .ok files) :
    List.Forall₂ ReadFrom (hunkPieces bytes)
        ((files.flatMap (·.patchTwin.hunks)).flatMap (·.lines)) ∧
      ∀ (others : List UInt8) (again : ParseOptions) (found : List ReviewFile),
        List.Forall₂ Alike (pieces 0x0A bytes) (pieces 0x0A others) →
        parseDecoded (decodePatch others) again = .ok found →
        found.map veilFile = files.map veilFile := by
  obtain ⟨-, -, doc, grown, reviewed⟩ := (parseLines_eq_ok _ _ _ _ _).1 accepted
  rw [captured_lines] at grown
  obtain ⟨shaped, lines⟩ := shaped_grown _ _ grown
  refine ⟨hunkLines_read bytes doc files shaped lines reviewed, ?_⟩
  intro others again found alike accepted'
  obtain ⟨-, -, other, grown', reviewed'⟩ := (parseLines_eq_ok _ _ _ _ _).1 accepted'
  rw [captured_lines] at grown'
  have same := files_unhidden _ _ doc other grown grown' (tainted_bytes bytes) (tainted_bytes others)
    (veil_bytes bytes others alike)
  rw [reviewed, reviewed'] at same
  exact (Option.some.inj same).symm

/-- A patch whose added line ends in a byte that is not UTF-8. -/
def latinBytes (letter : UInt8) : List UInt8 :=
  Utf8.encode "--- a/x\n+++ b/x\n@@ -1 +1 @@\n-a\n+".toList ++ [letter, 0xE9, 0x0A]

def latinFile (letter : Char) : ReviewFile where
  path := ['x']
  status := .modified
  patchTwin :=
    { binaryBody := []
      hunks :=
        [{ id := 0, oldStart := some 1, newStart := some 1, sectionHeading := none
           lines :=
             [{ noNewline := false, lossy := false, kind := .removed, oldLine := some 1,
                newLine := none, text := ['a'] },
              { noNewline := false, lossy := true, kind := .added, oldLine := none,
                newLine := some 1, text := [letter, '\uFFFD'] }] }]
      metadata := []
      lossyLines := 1 }
  semanticTwin := none
  planner := { strategy := .line, fallback := none, notes := [] }

theorem parse_lossless_latin :
    List.Forall₂ ReadFrom [[0x2D, 0x61, 0x0A], [0x2B, 0x62, 0xE9, 0x0A]]
        ([latinFile 'b'].flatMap (·.patchTwin.hunks) |>.flatMap (·.lines)) ∧
      [latinFile 'c'].map veilFile = [latinFile 'b'].map veilFile := by
  have hunk : hunkPieces (latinBytes 0x62) = [[0x2D, 0x61, 0x0A], [0x2B, 0x62, 0xE9, 0x0A]] := by
    decide +kernel
  obtain ⟨read, veiled⟩ := parse_lossless (latinBytes 0x62) {} [latinFile 'b'] (by decide +kernel)
  rw [hunk] at read
  have one : pieces 0x0A (latinBytes 0x62) = (pieces 0x0A (latinBytes 0x62)).take 4 ++
      [[0x2B, 0x62, 0xE9, 0x0A]] := by decide +kernel
  have other : pieces 0x0A (latinBytes 0x63) = (pieces 0x0A (latinBytes 0x62)).take 4 ++
      [[0x2B, 0x63, 0xE9, 0x0A]] := by decide +kernel
  refine ⟨read, veiled (latinBytes 0x63) {} [latinFile 'c'] ?_ (by decide +kernel)⟩
  rw [one, other]
  refine List.rel_append (List.forall₂_same.2 fun _ _ => .inl rfl) (.cons (.inr ?_) .nil)
  exact ⟨by decide, by decide, by decide⟩

end DeepDiffForge.Patch

import DeepDiffForge.Lib.Slices
import DeepDiffForge.Patch.Headers

/-! The split of a `diff --git` line by its bytes: one scan that never reads past the line or inside
a character, and finds what a fresh look after every space and tab finds. -/

namespace DeepDiffForge.Patch
open Text Slices

def findByte (c : Char) (text : Str) : Option Nat :=
  (splitOnce c text).map fun parts => (Utf8.encode parts.1).length

def skipTreeBytes (name : Str) (p0 : Bool) : Except Fault (Option Str) :=
  if p0 then .ok (if startsWith ['/'] name then none else some name)
  else match findByte '/' name with
    | none => .ok none
    | some 0 => .ok none
    | some (place + 1) => (sliceFrom name (place + 1 + 1)).map some

def isSeparator (c : Char) : Bool := c = ' ' || c = '\t'

/-- The bytes at which spaces and tabs stand, the text beginning at `offset`. -/
def separatorBytes (offset : Nat) : Str → List Nat
  | [] => []
  | c :: rest =>
      if isSeparator c then offset :: separatorBytes (offset + (String.utf8EncodeChar c).length) rest
      else separatorBytes (offset + (String.utf8EncodeChar c).length) rest

/-- The half from `second` on is the half before `place`; they are compared when as long. -/
def sameHalf (name : Str) (second place : Nat) : Except Fault Bool := do
  let length ← lessBy (Utf8.encode name).length second
  if length = place then return (← sliceFrom name second) = (← sliceTo name place) else return false

/-- The loop of `same_name_halves`; `slash` is the last `/` found. -/
def scanHalves (name : Str) (p0 : Bool) : List Nat → Nat → Except Fault (Option Str)
  | [], _ => return none
  | place :: later, slash => do
      let bytes := Utf8.encode name
      let start := place + 1
      if start = bytes.length then return none
      else if p0 then
        if (← byteAt bytes start) = 0x2F then return none
        else if ← sameHalf name start place then return some (← sliceTo name place)
        else scanHalves name p0 later slash
      else
        match (← bytesFrom bytes (max slash start)).findIdx? (· = 0x2F) with
        | none => return none
        | some offset =>
            let slash := max slash start + offset
            if slash = start then return none
            else if ← sameHalf name (slash + 1) place then return some (← sliceTo name place)
            else scanHalves name p0 later slash

def sameNameBytes (rest : Str) (p0 : Bool) : Except Fault (Option Str) := do
  match ← skipTreeBytes rest p0 with
  | none => return none
  | some name =>
      match findByte '"' name with
      | some quote =>
          match decodeQuotedPrefix (← sliceFrom name quote) with
          | none => return none
          | some (decoded, _) =>
              match ← skipTreeBytes decoded p0 with
              | none => return none
              | some second =>
                  match stripPrefix second (← sliceTo name quote) with
                  | some (c :: _) =>
                      return if c = ' ' || c = '\t' || c = '\r' then some second else none
                  | _ => return none
      | none => scanHalves name p0 (separatorBytes 0 name) 0

/-- A fresh look after each space and tab of a name, `first` being what comes before. -/
def naiveHalves (p0 : Bool) (first : Str) : Str → Option Str
  | [] => none
  | c :: rest =>
      if isSeparator c then
        if rest = [] then none
        else match skipTreePrefix rest p0 with
          | none => none
          | some second =>
              if second = first then some first else naiveHalves p0 (first ++ [c]) rest
      else naiveHalves p0 (first ++ [c]) rest

def naiveNames (rest : Str) (p0 : Bool) : Option Str :=
  (skipTreePrefix rest p0).bind (naiveHalves p0 [])

theorem skipTreeBytes_eq (name : Str) (p0 : Bool) :
    skipTreeBytes name p0 = .ok (skipTreePrefix name p0) := by
  unfold skipTreeBytes skipTreePrefix findByte
  cases p0 with
  | true => rfl
  | false =>
    cases split : splitOnce '/' name with
    | none => rfl
    | some parts =>
      obtain ⟨first, rest⟩ := parts
      obtain ⟨rfl, -⟩ := (splitOnce_eq_some '/' name first rest).1 split
      cases first with
      | nil => rfl
      | cons c first =>
        have grows := encode_pos (c :: first) (List.cons_ne_nil _ _)
        obtain ⟨size, found⟩ := Nat.exists_eq_succ_of_ne_zero (Nat.ne_of_gt grows)
        have whole : c :: first ++ '/' :: rest = (c :: first ++ ['/']) ++ rest := by simp
        have length : (Utf8.encode (c :: first ++ ['/'])).length = size + 1 + 1 := by
          rw [Utf8.encode_append, List.length_append, found]
          rfl
        have sliced := sliceFrom_append (c :: first ++ ['/']) rest
        rw [← whole, length] at sliced
        simp only [Option.map_some, found]
        rw [sliced]
        rfl

section Passed
variable {α : Type} [DecidableEq α] (sl : α)

/-- `slash` is in the list or at its end, and no `sl` stands before it from `first` on. -/
def Passed (items : List α) (first slash : Nat) : Prop :=
  slash ≤ items.length ∧ ∀ place, first ≤ place → place < slash → items[place]? ≠ some sl

omit [DecidableEq α] in
theorem passed_later (items : List α) (first later slash : Nat) (order : first ≤ later)
    (passed : Passed sl items first slash) : Passed sl items later slash :=
  ⟨passed.1, fun place low high => passed.2 place (by omega) high⟩

theorem findIdx_absent (items : List α) (plain : sl ∉ items) : items.findIdx? (· = sl) = none := by
  rw [List.findIdx?_eq_none_iff]
  intro item listed
  exact decide_eq_false fun same => plain (same ▸ listed)

/-- From where the scan has come, the next `sl` is the first one past the separator. -/
theorem passed_find (before own after : List α) (slash : Nat) (plain : sl ∉ own)
    (passed : Passed sl (before ++ (own ++ sl :: after)) before.length slash) :
    max slash before.length ≤ before.length + own.length ∧
      ((before ++ (own ++ sl :: after)).drop (max slash before.length)).findIdx? (· = sl) =
        some (before.length + own.length - max slash before.length) ∧
      Passed sl (before ++ (own ++ sl :: after)) before.length (before.length + own.length) := by
  have here : (before ++ (own ++ sl :: after))[before.length + own.length]? = some sl := by
    rw [List.getElem?_append_right (by omega), List.getElem?_append_right (by omega)]
    simp
  have reach : slash ≤ before.length + own.length := by
    by_contra past
    exact passed.2 (before.length + own.length) (by omega) (by omega) here
  have room : max slash before.length ≤ before.length + own.length := by omega
  refine ⟨room, ?_, by simp, ?_⟩
  · rw [List.drop_append, List.drop_eq_nil_of_le (by omega), List.nil_append, List.drop_append,
      show max slash before.length - before.length - own.length = 0 by omega, List.drop_zero,
      List.findIdx?_append, findIdx_absent sl _ fun listed => plain (List.mem_of_mem_drop listed)]
    have first : (sl :: after).findIdx? (· = sl) = some 0 := by simp [List.findIdx?_cons]
    rw [first, Option.none_or, Option.map_some, List.length_drop]
    congr 1
    omega
  · intro place low high found
    rw [List.getElem?_append_right low, List.getElem?_append_left (by omega)] at found
    exact plain (List.mem_of_getElem? found)

theorem passed_none (before rest : List α) (slash : Nat) (plain : sl ∉ rest) :
    ((before ++ rest).drop (max slash before.length)).findIdx? (· = sl) = none := by
  refine findIdx_absent sl _ fun listed => ?_
  rw [List.drop_append, List.drop_eq_nil_of_le (by omega), List.nil_append] at listed
  exact plain (List.mem_of_mem_drop listed)

end Passed

theorem mem_encode_slash (text : Str) : 0x2F ∈ Utf8.encode text ↔ '/' ∈ text :=
  Utf8.mem_decode _ _ (Utf8.decode_encode text) 0x2F (by decide)

theorem byteAt_append (before : List UInt8) (c : Char) (rest : Str) :
    ∃ b, byteAt (before ++ Utf8.encode (c :: rest)) before.length = .ok b ∧ (b = 0x2F ↔ c = '/') := by
  obtain ⟨a, bytes, form, read⟩ := Utf8.next_encodeChar c (Utf8.encode rest)
  have here : (before ++ Utf8.encode (c :: rest))[before.length]? = some a := by
    rw [Utf8.encode_cons, form, List.getElem?_append_right (Nat.le_refl _), Nat.sub_self]
    rfl
  refine ⟨a, by rw [byteAt, here], ?_⟩
  constructor
  · rintro rfl
    rw [Utf8.next_ascii _ _ (by decide)] at read
    exact (Option.some.inj (Prod.mk.inj read).1).symm
  · rintro rfl
    cases form
    rfl

theorem length_separator (c : Char) (separates : isSeparator c = true) :
    (String.utf8EncodeChar c).length = 1 := by
  rw [isSeparator, Bool.or_eq_true, decide_eq_true_eq, decide_eq_true_eq] at separates
  rcases separates with rfl | rfl <;> rfl

theorem length_snoc (first : Str) (c : Char) : (Utf8.encode (first ++ [c])).length =
    (Utf8.encode first).length + (String.utf8EncodeChar c).length := by
  rw [Utf8.encode_append, List.length_append]
  simp [Utf8.encode]

theorem sameHalf_eq (name first rest before second : Str) (split : name = first ++ rest)
    (split' : name = before ++ second) :
    sameHalf name (Utf8.encode before).length (Utf8.encode first).length =
      .ok (decide (second = first)) := by
  have length : (Utf8.encode name).length =
      (Utf8.encode before).length + (Utf8.encode second).length := by
    rw [split', Utf8.encode_append, List.length_append]
  have less : lessBy (Utf8.encode name).length (Utf8.encode before).length =
      .ok (Utf8.encode second).length := by
    rw [lessBy, if_pos (by omega), length, Nat.add_sub_cancel_left]
  have late : sliceFrom name (Utf8.encode before).length = .ok second := by
    rw [split', sliceFrom_append]
  have early : sliceTo name (Utf8.encode first).length = .ok first := by
    rw [split, sliceTo_append]
  rw [sameHalf, less, late, early]
  by_cases same : (Utf8.encode second).length = (Utf8.encode first).length
  · simp [bind, Except.bind, pure, Except.pure, same]
  · have differ : second ≠ first := fun whole => same (by rw [whole])
    simp [bind, Except.bind, pure, Except.pure, same, differ]

section Step
variable (name first rest : Str) (c : Char) (later : List Nat) (slash : Nat)

theorem scan_bare (split : name = first ++ c :: rest) (separates : isSeparator c = true)
    (filled : rest ≠ []) :
    scanHalves name true ((Utf8.encode first).length :: later) slash =
      match skipTreePrefix rest true with
      | none => .ok none
      | some second =>
          if second = first then .ok (some first) else scanHalves name true later slash := by
  have split' : name = (first ++ [c]) ++ rest := by rw [split, List.append_assoc]; rfl
  have start : (Utf8.encode first).length + 1 = (Utf8.encode (first ++ [c])).length := by
    rw [length_snoc, length_separator c separates]
  have whole : Utf8.encode name = Utf8.encode (first ++ [c]) ++ Utf8.encode rest := by
    rw [split', Utf8.encode_append]
  have early : sliceTo name (Utf8.encode first).length = .ok first := by rw [split, sliceTo_append]
  have more := encode_pos rest filled
  have half := sameHalf_eq name first (c :: rest) (first ++ [c]) rest split split'
  obtain ⟨d, after, rfl⟩ := List.exists_cons_of_ne_nil filled
  obtain ⟨b, read, begins⟩ := byteAt_append (Utf8.encode (first ++ [c])) d after
  rw [← whole] at read
  have rooted : startsWith ['/'] (d :: after) = decide (d = '/') := by
    rw [startsWith_single, List.head?_cons, Option.any_some, eq_comm]
    simp [eq_comm]
  rw [scanHalves, start]
  dsimp only
  rw [if_neg (by rw [whole, List.length_append]; omega), if_pos rfl, read, half, early]
  simp only [skipTreePrefix, rooted, bind, Except.bind, pure, Except.pure, begins, if_true,
    decide_eq_true_eq]
  by_cases root : d = '/'
  · simp [root]
  · simp [root]

theorem scan_stripped (split : name = first ++ c :: rest) (separates : isSeparator c = true)
    (filled : rest ≠ []) (passed : Passed 0x2F (Utf8.encode name) (Utf8.encode first).length slash) :
    ∃ next, Passed 0x2F (Utf8.encode name) (Utf8.encode (first ++ [c])).length next ∧
      scanHalves name false ((Utf8.encode first).length :: later) slash =
        match skipTreePrefix rest false with
        | none => .ok none
        | some second =>
            if second = first then .ok (some first) else scanHalves name false later next := by
  have split' : name = (first ++ [c]) ++ rest := by rw [split, List.append_assoc]; rfl
  have start : (Utf8.encode first).length + 1 = (Utf8.encode (first ++ [c])).length := by
    rw [length_snoc, length_separator c separates]
  have whole : Utf8.encode name = Utf8.encode (first ++ [c]) ++ Utf8.encode rest := by
    rw [split', Utf8.encode_append]
  have early : sliceTo name (Utf8.encode first).length = .ok first := by rw [split, sliceTo_append]
  have more := encode_pos rest filled
  have past : Passed 0x2F (Utf8.encode name) (Utf8.encode (first ++ [c])).length slash :=
    passed_later _ _ _ _ _ (by omega) passed
  have reach : max slash (Utf8.encode (first ++ [c])).length ≤ (Utf8.encode name).length := by
    have inside := passed.1
    rw [whole, List.length_append] at inside ⊢
    omega
  rw [scanHalves, start]
  dsimp only
  rw [if_neg (by rw [whole, List.length_append]; omega), if_neg Bool.false_ne_true, bytesFrom,
    if_pos reach, skipTreePrefix, if_neg Bool.false_ne_true]
  simp only [bind, Except.bind, pure, Except.pure]
  cases found : splitOnce '/' rest with
  | none =>
    have plain : 0x2F ∉ Utf8.encode rest := fun listed =>
      (splitOnce_eq_none '/' rest).1 found ((mem_encode_slash rest).1 listed)
    refine ⟨slash, past, ?_⟩
    rw [whole, passed_none 0x2F _ _ slash plain]
  | some parts =>
    obtain ⟨own, second⟩ := parts
    obtain ⟨rfl, absent⟩ := (splitOnce_eq_some '/' rest own second).1 found
    have plain : 0x2F ∉ Utf8.encode own := fun listed => absent ((mem_encode_slash own).1 listed)
    have form : Utf8.encode name =
        Utf8.encode (first ++ [c]) ++ (Utf8.encode own ++ 0x2F :: Utf8.encode second) := by
      rw [whole, Utf8.encode_append own, Utf8.encode_cons '/']
      rfl
    have split'' : name = (first ++ [c] ++ own ++ ['/']) ++ second := by
      rw [split']
      simp
    have length : (Utf8.encode (first ++ [c] ++ own ++ ['/'])).length =
        (Utf8.encode (first ++ [c])).length + (Utf8.encode own).length + 1 := by
      rw [length_snoc, Utf8.encode_append (first ++ [c]), List.length_append]
      rfl
    have half := sameHalf_eq name first _ _ second split split''
    rw [length] at half
    rw [form] at past ⊢
    obtain ⟨room, index, ahead⟩ := passed_find 0x2F _ _ _ slash plain past
    refine ⟨_, ahead, ?_⟩
    rw [index]
    dsimp only
    rw [Nat.add_sub_cancel' room, half, early]
    cases own with
    | nil => exact if_pos (Nat.add_zero _)
    | cons d own =>
      have grows := encode_pos (d :: own) (List.cons_ne_nil _ _)
      rw [if_neg (by omega)]
      simp

end Step

/-- The scan from any separator on finds what fresh looks find. -/
theorem scanHalves_eq (name : Str) (p0 : Bool) (first rest : Str) (slash : Nat)
    (split : name = first ++ rest)
    (passed : Passed 0x2F (Utf8.encode name) (Utf8.encode first).length slash) :
    scanHalves name p0 (separatorBytes (Utf8.encode first).length rest) slash =
      .ok (naiveHalves p0 first rest) := by
  induction rest generalizing first slash with
  | nil => rfl
  | cons c rest ih =>
    have split' : name = (first ++ [c]) ++ rest := by rw [split, List.append_assoc]; rfl
    have length := length_snoc first c
    have past : Passed 0x2F (Utf8.encode name) (Utf8.encode (first ++ [c])).length slash :=
      passed_later _ _ _ _ _ (by omega) passed
    rw [separatorBytes, naiveHalves, ← length]
    by_cases separates : isSeparator c = true
    · rw [if_pos separates, if_pos separates]
      by_cases last : rest = []
      · subst last
        rw [scanHalves, if_pos rfl]
        dsimp only
        rw [if_pos (by rw [split', List.append_nil, length, length_separator c separates])]
        rfl
      obtain ⟨next, ahead, step⟩ : ∃ next,
          Passed 0x2F (Utf8.encode name) (Utf8.encode (first ++ [c])).length next ∧
          scanHalves name p0 ((Utf8.encode first).length ::
            separatorBytes (Utf8.encode (first ++ [c])).length rest) slash =
          match skipTreePrefix rest p0 with
          | none => .ok none
          | some second =>
              if second = first then .ok (some first)
              else scanHalves name p0 (separatorBytes (Utf8.encode (first ++ [c])).length rest)
                next := by
        cases p0 with
        | true => exact ⟨slash, past, scan_bare name first rest c _ slash split separates last⟩
        | false => exact scan_stripped name first rest c _ slash split separates last passed
      rw [step, if_neg last, ih (first ++ [c]) next split' ahead]
      cases skipTreePrefix rest p0 with
      | none => rfl
      | some second =>
        dsimp only
        split_ifs <;> rfl
    · rw [if_neg separates, if_neg separates]
      exact ih (first ++ [c]) slash split' past

def charSeparators (offset : Nat) : Str → List Nat
  | [] => []
  | c :: rest =>
      if isSeparator c then offset :: charSeparators (offset + 1) rest
      else charSeparators (offset + 1) rest

theorem separators_eq (name : Str) : separators name = charSeparators 0 name := by
  have low (first rest : Str) : (List.range' first.length rest.length).filter (fun place =>
      (first ++ rest)[place]? = some ' ' || (first ++ rest)[place]? = some '\t') =
      charSeparators first.length rest := by
    induction rest generalizing first with
    | nil => rfl
    | cons c rest ih =>
      have later := ih (first ++ [c])
      rw [List.append_assoc, List.singleton_append, List.length_append, List.length_singleton]
        at later
      rw [List.length_cons, List.range'_succ, List.filter_cons, later, charSeparators]
      simp [isSeparator]
  rw [separators, List.range_eq_range']
  exact low [] name

theorem sameNameLoop_eq (name : Str) (p0 : Bool) (first rest : Str) (slash : Nat)
    (split : name = first ++ rest) (passed : Passed '/' name first.length slash) :
    sameNameLoop name p0 (charSeparators first.length rest) slash = naiveHalves p0 first rest := by
  induction rest generalizing first slash with
  | nil => rfl
  | cons c rest ih =>
    have split' : name = (first ++ [c]) ++ rest := by rw [split, List.append_assoc]; rfl
    have start : first.length + 1 = (first ++ [c]).length := by simp
    have whole : name.length = (first ++ [c]).length + rest.length := by
      rw [split', List.length_append]
    have past : Passed '/' name (first ++ [c]).length slash :=
      passed_later _ _ _ _ _ (by omega) passed
    rw [charSeparators, naiveHalves, start]
    by_cases separates : isSeparator c = true
    · rw [if_pos separates, if_pos separates, sameNameLoop, start]
      dsimp only
      by_cases last : rest = []
      · rw [if_pos (by rw [whole, last]; rfl), if_pos last]
      have more : 0 < rest.length := List.length_pos_iff.2 last
      have before : name.take first.length = first := by rw [split, List.take_left]
      rw [if_neg (by omega), if_neg last, before]
      cases p0 with
      | true =>
        have rooted : (name[(first ++ [c]).length]? = some '/') ↔ startsWith ['/'] rest = true := by
          rw [split', List.getElem?_append_right (Nat.le_refl _), Nat.sub_self, startsWith_single,
            ← List.head?_eq_getElem?]
          cases rest.head? <;> simp [eq_comm]
        have after : name.drop (first ++ [c]).length = rest := by rw [split', List.drop_left]
        rw [if_pos rfl, skipTreePrefix, if_pos rfl, after]
        by_cases root : startsWith ['/'] rest = true
        · rw [if_pos (rooted.2 root), if_pos root]
        · rw [if_neg (root ∘ rooted.1), if_neg root, ih (first ++ [c]) slash split' past]
          dsimp only
          by_cases same : rest = first
          · rw [if_pos ⟨by rw [whole, same]; omega, same⟩, if_pos same]
          · rw [if_neg (same ∘ And.right), if_neg same]
      | false =>
        rw [if_neg Bool.false_ne_true, skipTreePrefix, if_neg Bool.false_ne_true]
        cases found : splitOnce '/' rest with
        | none => rw [split', passed_none '/' _ _ slash ((splitOnce_eq_none '/' rest).1 found)]
        | some parts =>
          obtain ⟨own, second⟩ := parts
          obtain ⟨rfl, plain⟩ := (splitOnce_eq_some '/' rest own second).1 found
          obtain ⟨room, index, ahead⟩ := passed_find '/' _ _ _ slash plain (split' ▸ past)
          rw [← split'] at index ahead
          have split'' : name = (first ++ [c] ++ own ++ ['/']) ++ second := by
            rw [split']
            simp
          have length : (first ++ [c] ++ own ++ ['/']).length =
              (first ++ [c]).length + own.length + 1 := by
            rw [List.length_append, List.length_append, List.length_singleton]
          have after : name.drop ((first ++ [c]).length + own.length + 1) = second := by
            rw [← length, split'', List.drop_left]
          rw [index]
          dsimp only
          rw [Nat.add_sub_cancel' room, after, ih (first ++ [c]) _ split' ahead]
          cases own with
          | nil => exact if_pos (Nat.add_zero _)
          | cons d own =>
            rw [if_neg (by rw [List.length_cons]; omega)]
            dsimp only
            by_cases same : second = first
            · have size : name.length - ((first ++ [c]).length + (d :: own).length + 1) =
                  first.length := by
                rw [split'', List.length_append, length, same, Nat.add_sub_cancel_left]
              rw [if_pos ⟨size, same⟩, if_pos same]
            · rw [if_neg (same ∘ And.right), if_neg same]
    · rw [if_neg separates, if_neg separates]
      exact ih (first ++ [c]) slash split' past

theorem passed_start {α : Type} [DecidableEq α] (sl : α) (items : List α) : Passed sl items 0 0 :=
  ⟨Nat.zero_le _, fun _ _ high => absurd high (Nat.not_lt_zero _)⟩

theorem findByte_split (c : Char) (name before after : Str)
    (split : splitOnce c name = some (before, after)) :
    findByte c name = some (Utf8.encode before).length ∧
      sliceFrom name (Utf8.encode before).length = .ok (c :: after) ∧
      sliceTo name (Utf8.encode before).length = .ok before := by
  obtain ⟨rfl, -⟩ := (splitOnce_eq_some c name before after).1 split
  exact ⟨by rw [findByte, split]; rfl, sliceFrom_append _ _, sliceTo_append _ _⟩

/-- Read by its bytes, a header line is split as the parser splits it, and no read fails. -/
theorem sameNameBytes_eq (rest : Str) (p0 : Bool) :
    sameNameBytes rest p0 = .ok (sameNameHalves rest p0) := by
  rw [sameNameBytes, skipTreeBytes_eq, sameNameHalves]
  cases skipTreePrefix rest p0 with
  | none => rfl
  | some name =>
    simp only [bind, Except.bind, pure, Except.pure]
    cases split : splitOnce '"' name with
    | none =>
      have absent : findByte '"' name = none := by rw [findByte, split]; rfl
      have scanned := scanHalves_eq name p0 [] name 0 rfl (passed_start _ _)
      have looped := sameNameLoop_eq name p0 [] name 0 rfl (passed_start _ _)
      rw [absent, separators_eq]
      exact scanned.trans (congrArg Except.ok looped.symm)
    | some parts =>
      obtain ⟨before, after⟩ := parts
      obtain ⟨found, late, early⟩ := findByte_split '"' name before after split
      rw [found]
      simp only [late, early]
      cases decodeQuotedPrefix ('"' :: after) with
      | none => rfl
      | some decoded =>
        simp only [skipTreeBytes_eq]
        cases skipTreePrefix decoded.1 p0 with
        | none => rfl
        | some second =>
          dsimp only
          cases stripPrefix second before with
          | none => rfl
          | some left => cases left <;> rfl

theorem sameNameHalves_naive (rest : Str) (p0 : Bool)
    (unquoted : ∀ name ∈ skipTreePrefix rest p0, '"' ∉ name) :
    sameNameHalves rest p0 = naiveNames rest p0 := by
  rw [sameNameHalves, naiveNames]
  cases stripped : skipTreePrefix rest p0 with
  | none => rfl
  | some name =>
    have plain := (splitOnce_eq_none '"' name).2 (unquoted name stripped)
    dsimp only
    rw [plain, separators_eq]
    exact sameNameLoop_eq name p0 [] name 0 rfl (passed_start _ _)

def Halves (p0 : Bool) (name first second : Str) : Prop :=
  ∃ c rest, name = first ++ c :: rest ∧ isSeparator c = true ∧ skipTreePrefix rest p0 = some second

theorem length_suffix (one two : Str) (ends : one <:+ two) :
    (Utf8.encode one).length ≤ (Utf8.encode two).length := by
  obtain ⟨before, rfl⟩ := ends
  rw [Utf8.encode_append, List.length_append]
  omega

/-- Further on in a name, what follows the first component is no longer. -/
theorem skipTreePrefix_later (p0 : Bool) (before rest second second' : Str)
    (strips : skipTreePrefix (before ++ rest) p0 = some second)
    (strips' : skipTreePrefix rest p0 = some second') : second' <:+ second := by
  cases p0 with
  | true =>
    simp only [skipTreePrefix, if_true, Option.ite_none_left_eq_some, Option.some.injEq]
      at strips strips'
    rw [← strips.2, ← strips'.2]
    exact List.suffix_append before rest
  | false =>
    have cut (name second : Str) (strips : skipTreePrefix name false = some second) :
        ∃ own, name = own ++ '/' :: second ∧ '/' ∉ own := by
      rw [skipTreePrefix, if_neg Bool.false_ne_true] at strips
      split at strips
      · cases strips
      · cases strips
      · rename_i c own rest found
        cases strips
        exact ⟨c :: own, (splitOnce_eq_some '/' name (c :: own) second).1 found⟩
    obtain ⟨own, split, plain⟩ := cut _ _ strips
    obtain ⟨own', rfl, -⟩ := cut _ _ strips'
    rw [← List.append_assoc] at split
    rcases List.append_eq_append_iff.1 split with ⟨more, early, late⟩ | ⟨more, early, late⟩
    · cases more with
      | nil => exact (List.cons.inj late).2 ▸ List.suffix_refl _
      | cons c more =>
        rw [List.cons_append, List.cons.injEq] at late
        exact absurd (by rw [early, ← late.1]; simp) plain
    · cases more with
      | nil => exact (List.cons.inj late).2 ▸ List.suffix_refl _
      | cons c more =>
        rw [List.cons_append, List.cons.injEq] at late
        rw [late.2]
        exact (List.suffix_cons '/' second').trans (List.suffix_append _ _)

theorem halves_shrink (p0 : Bool) (name first second first' second' : Str)
    (halves : Halves p0 name first second) (halves' : Halves p0 name first' second')
    (longer : first.length < first'.length) :
    (Utf8.encode first).length < (Utf8.encode first').length ∧
      (Utf8.encode second').length ≤ (Utf8.encode second).length := by
  obtain ⟨c, rest, split, -, strips⟩ := halves
  obtain ⟨c', rest', split', -, strips'⟩ := halves'
  rw [split] at split'
  rcases List.append_eq_append_iff.1 split' with ⟨more, rfl, late⟩ | ⟨more, rfl, -⟩
  · cases more with
    | nil => simp at longer
    | cons d more =>
      obtain ⟨rfl, tail⟩ := List.cons.inj late
      have later : rest = (more ++ [c']) ++ rest' := by
        rw [tail, List.append_assoc]
        rfl
      rw [later] at strips
      have grows := encode_pos (c :: more) (List.cons_ne_nil _ _)
      have shorter := length_suffix _ _ (skipTreePrefix_later p0 _ _ _ _ strips strips')
      rw [Utf8.encode_append, List.length_append]
      omega
  · rw [List.length_append] at longer
    omega

theorem halves_unique (p0 : Bool) (name first second first' second' : Str)
    (halves : Halves p0 name first second) (halves' : Halves p0 name first' second')
    (even : (Utf8.encode first).length = (Utf8.encode second).length)
    (even' : (Utf8.encode first').length = (Utf8.encode second').length) :
    first = first' ∧ second = second' := by
  rcases Nat.lt_trichotomy first.length first'.length with less | same | more
  · have apart := halves_shrink p0 name first second first' second' halves halves' less
    omega
  · obtain ⟨c, rest, split, -, strips⟩ := halves
    obtain ⟨c', rest', split', -, strips'⟩ := halves'
    obtain ⟨rfl, tail⟩ := List.append_inj (split.symm.trans split') same
    obtain ⟨-, rfl⟩ := List.cons.inj tail
    exact ⟨rfl, Option.some.inj (strips.symm.trans strips')⟩
  · have apart := halves_shrink p0 name first' second' first second halves' halves more
    omega

/-- The one scan of `same_name_halves` finds what the naive search finds. -/
theorem sameName_naive (rest : Str) (p0 : Bool) :
    sameNameBytes rest p0 = .ok (sameNameHalves rest p0) ∧
      ((∀ name ∈ skipTreePrefix rest p0, '"' ∉ name) →
        sameNameBytes rest p0 = .ok (naiveNames rest p0)) ∧
      ∀ name first second first' second', Halves p0 name first second →
        Halves p0 name first' second' →
        (Utf8.encode first).length = (Utf8.encode second).length →
        (Utf8.encode first').length = (Utf8.encode second').length →
        first = first' ∧ second = second' := by
  refine ⟨sameNameBytes_eq rest p0, fun unquoted => ?_, halves_unique p0⟩
  rw [sameNameBytes_eq, sameNameHalves_naive rest p0 unquoted]

theorem sameName_naive_words :
    sameNameBytes "i/é b c w/é b c".toList false = .ok (naiveNames "i/é b c w/é b c".toList false) ∧
      naiveNames "i/é b c w/é b c".toList false = some "é b c".toList :=
  ⟨(sameName_naive "i/é b c w/é b c".toList false).2.1 (by decide +kernel), by decide +kernel⟩

end DeepDiffForge.Patch

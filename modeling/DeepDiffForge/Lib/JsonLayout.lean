import DeepDiffForge.Lib.JsonLines
import DeepDiffForge.Lib.Decimal
import Mathlib.Data.List.Forall2

/-! JSON written by hand over many lines: what its pieces denote, put together in the order they
are written in. -/

namespace DeepDiffForge.JsonGrammar
open Text

theorem space_append (first second : Str) (one : Space first) (two : Space second) :
    Space (first ++ second) := by
  intro c listed
  rcases List.mem_append.1 listed with here | there
  · exact one c here
  · exact two c there

theorem element_ahead (between text : Str) (datum : Datum) (blank : Space between)
    (well : Element text datum) : Element (between ++ text) datum := by
  cases well with
  | mk before body after datum ahead well behind =>
    have whole : between ++ (before ++ body ++ after) = (between ++ before) ++ body ++ after := by
      simp only [List.append_assoc]
    rw [whole]
    exact .mk _ body after datum (space_append _ _ blank ahead) well behind

theorem element_behind (between text : Str) (datum : Datum) (blank : Space between)
    (well : Element text datum) : Element (text ++ between) datum := by
  cases well with
  | mk before body after datum ahead well behind =>
    rw [List.append_assoc]
    exact .mk before body _ datum ahead well (space_append _ _ behind blank)

theorem items_ahead (between text : Str) (items : List Datum) (blank : Space between)
    (well : Items text items) : Items (between ++ text) items := by
  cases well with
  | one text datum well => exact .one _ datum (element_ahead between text datum blank well)
  | more text datum rest items well next =>
    rw [← List.append_assoc]
    exact .more _ datum rest items (element_ahead between text datum blank well) next

theorem items_behind (between text : Str) (items : List Datum) (blank : Space between)
    (well : Items text items) : Items (text ++ between) items := by
  cases well with
  | one text datum well => exact .one _ datum (element_behind between text datum blank well)
  | more text datum rest items well next =>
    rw [List.append_assoc, List.cons_append]
    exact .more text datum _ items well (items_behind between rest items blank next)

theorem member_ahead (between text : Str) (name : List Nat) (datum : Datum) (blank : Space between)
    (well : Member text name datum) : Member (between ++ text) name datum := by
  cases well with
  | mk before key after text name datum ahead named behind well =>
    have whole : between ++ (before ++ quoted key ++ after ++ ':' :: text) =
        (between ++ before) ++ quoted key ++ after ++ ':' :: text := by
      simp only [List.append_assoc]
    rw [whole]
    exact .mk _ key after text name datum (space_append _ _ blank ahead) named behind well

theorem members_ahead (between text : Str) (members : List (List Nat × Datum))
    (blank : Space between) (well : Members text members) : Members (between ++ text) members := by
  cases well with
  | one text name datum well =>
    exact .one _ name datum (member_ahead between text name datum blank well)
  | more text name datum rest members well next =>
    rw [← List.append_assoc]
    exact .more _ name datum rest members (member_ahead between text name datum blank well) next

theorem members_comma (first rest : Str) (members others : List (List Nat × Datum))
    (well : Members first members) (next : Members rest others) :
    Members (first ++ ',' :: rest) (members ++ others) := by
  cases well with
  | one text name datum well => exact .more _ name datum rest others well next
  | more text name datum later members well after =>
    rw [List.append_assoc, List.cons_append]
    exact .more text name datum _ _ well (members_comma later rest members others after next)

def text (value : Str) : Datum := .string (utf16 value)

def number (n : Nat) : Datum := .number (decimal n)

theorem text_injective (one two : Str) (same : text one = text two) : one = two :=
  utf16_injective one two (Datum.string.inj same)

theorem number_injective (one two : Nat) (same : number one = number two) : one = two := by
  have read := congrArg (Nat.ofDigitChars 10 · 0) (Datum.number.inj same)
  simpa only [ofDigitChars_decimal] using read

theorem number_decimal (n : Nat) : Number (decimal n) := by
  have digits : Digits (decimal n) := by
    refine ⟨decimal_ne_nil n, fun c listed => ?_⟩
    have digit := decimal_digit n c listed
    unfold Char.isDigit at digit
    unfold isDigit
    rw [Bool.and_eq_true, decide_eq_true_eq, decide_eq_true_eq] at digit ⊢
    exact digit
  refine ⟨[], decimal n, [], [], by simp, .inl rfl, ?_, .inl rfl, .inl rfl⟩
  exact (decimal_head n).imp_right fun head => ⟨digits, head⟩

theorem denotes_number (n : Nat) : Denotes (decimal n) (number n) := .number _ (number_decimal n)

theorem units_plain (name : Str) (raw : ∀ c ∈ name, unescaped c = true) :
    Units name (utf16 name) := by
  induction name with
  | nil => exact .nil
  | cons c rest ih =>
    exact .plain c rest _ (raw c List.mem_cons_self) (ih fun d listed => raw d (.tail _ listed))

theorem space_replicate (indent : Nat) : Space (List.replicate indent ' ') := by
  intro c listed
  rw [(List.mem_replicate.1 listed).2]
  rfl

def field (name value : Str) : Str := quoted name ++ ':' :: ' ' :: value

theorem member_field (name value : Str) (datum : Datum) (raw : ∀ c ∈ name, unescaped c = true)
    (well : Denotes value datum) : Member (field name value) (utf16 name) datum := by
  have element : Element (' ' :: value) datum := by
    have framed := Element.mk [' '] value [] datum (space_replicate 1) well (space_replicate 0)
    rwa [List.append_nil] at framed
  have named := Member.mk [] name [] _ _ datum (space_replicate 0) (units_plain name raw)
    (space_replicate 0) element
  rwa [List.nil_append, List.append_nil] at named

def memberLine (indent : Nat) (name value : Str) : Str :=
  List.replicate indent ' ' ++ field name value ++ [',', '\n']

theorem members_line (indent : Nat) (name value rest : Str) (datum : Datum)
    (others : List (List Nat × Datum)) (raw : ∀ c ∈ name, unescaped c = true)
    (well : Denotes value datum) (next : Members rest others) :
    Members (memberLine indent name value ++ rest) ((utf16 name, datum) :: others) := by
  have line := member_ahead _ _ _ _ (space_replicate indent)
    (member_field name value datum raw well)
  have blank : Space ['\n'] := fun c listed => List.mem_singleton.1 listed ▸ rfl
  have whole : memberLine indent name value ++ rest =
      (List.replicate indent ' ' ++ field name value) ++ ',' :: (['\n'] ++ rest) := by
    simp only [memberLine, List.append_assoc, List.cons_append, List.nil_append]
  rw [whole]
  exact .more _ _ datum _ others line (members_ahead ['\n'] rest others blank next)

theorem members_lineWhen (written : Prop) [Decidable written] (indent : Nat) (name value rest : Str)
    (datum : Datum) (others : List (List Nat × Datum)) (raw : ∀ c ∈ name, unescaped c = true)
    (well : Denotes value datum) (next : Members rest others) :
    Members ((if written then memberLine indent name value else []) ++ rest)
      ((if written then [(utf16 name, datum)] else []) ++ others) := by
  split_ifs
  · exact members_line indent name value rest datum others raw well next
  · exact next

theorem members_lineOption {α : Type} (found : Option α) (write : α → Str) (shown : α → Datum)
    (indent : Nat) (name rest : Str) (others : List (List Nat × Datum))
    (raw : ∀ c ∈ name, unescaped c = true) (well : ∀ value, Denotes (write value) (shown value))
    (next : Members rest others) :
    Members (found.elim [] (fun value => memberLine indent name (write value)) ++ rest)
      (found.elim [] (fun value => [(utf16 name, shown value)]) ++ others) := by
  cases found with
  | none => exact next
  | some value => exact members_line indent name (write value) rest _ others raw (well value) next

theorem members_last (indent : Nat) (name value behind : Str) (datum : Datum)
    (raw : ∀ c ∈ name, unescaped c = true) (well : Denotes value datum) (blank : Space behind) :
    Members (List.replicate indent ' ' ++ field name value ++ behind) [(utf16 name, datum)] := by
  have element : Element (' ' :: (value ++ behind)) datum :=
    .mk [' '] value behind datum (space_replicate 1) well blank
  have named := Member.mk (List.replicate indent ' ') name [] _ _ datum (space_replicate indent)
    (units_plain name raw) (space_replicate 0) element
  have whole : List.replicate indent ' ' ++ field name value ++ behind =
      List.replicate indent ' ' ++ quoted name ++ [] ++ ':' :: ' ' :: (value ++ behind) := by
    simp only [field, List.append_assoc, List.cons_append, List.nil_append]
  rw [whole]
  exact .one _ _ datum named

/-- One more member behind a comma and a blank. -/
theorem members_next (first name value : Str) (datum : Datum) (members : List (List Nat × Datum))
    (raw : ∀ c ∈ name, unescaped c = true) (well : Denotes value datum)
    (before : Members first members) :
    Members (first ++ [',', ' '] ++ field name value) (members ++ [(utf16 name, datum)]) := by
  have one := member_ahead [' '] _ _ _ (space_replicate 1) (member_field name value datum raw well)
  rw [List.append_assoc]
  exact members_comma first _ members _ before (.one _ _ datum one)

/-- One more member behind a comma and a blank, where there is one. -/
theorem members_nextWhen (written : Prop) [Decidable written] (first name value : Str)
    (datum : Datum) (members : List (List Nat × Datum)) (raw : ∀ c ∈ name, unescaped c = true)
    (well : Denotes value datum) (before : Members first members) :
    Members (first ++ if written then ',' :: ' ' :: field name value else [])
      (members ++ if written then [(utf16 name, datum)] else []) := by
  split_ifs
  · have next := members_next first name value datum members raw well before
    rwa [List.append_assoc] at next
  · rw [List.append_nil, List.append_nil]
    exact before

def itemLines : List Str → Str
  | [] => []
  | entry :: rest => entry ++ (if rest.isEmpty then [] else [',']) ++ '\n' :: itemLines rest

theorem items_itemLines (first : Str) (rest : List Str) (datum : Datum) (data : List Datum)
    (head : Element first datum) (each : List.Forall₂ Element rest data) :
    Items (itemLines (first :: rest)) (datum :: data) := by
  have blank : Space ['\n'] := fun c listed => List.mem_singleton.1 listed ▸ rfl
  induction each generalizing first datum with
  | nil =>
    have whole : itemLines [first] = first ++ ['\n'] := by
      simp only [itemLines, List.isEmpty_nil, if_true, List.append_nil]
    rw [whole]
    exact .one _ datum (element_behind ['\n'] first datum blank head)
  | cons next others ih =>
    rename_i second datum' rest data
    have later := items_ahead ['\n'] _ _ blank (ih second datum' next)
    have whole : itemLines (first :: second :: rest) =
        first ++ ',' :: (['\n'] ++ itemLines (second :: rest)) := by
      simp only [itemLines, List.isEmpty_cons, Bool.false_eq_true, if_false, List.append_assoc,
        List.cons_append, List.nil_append]
    rw [whole]
    exact .more first datum _ _ head later

/-- An array of lines: nothing between the brackets, or each entry on lines of its own. -/
def block (indent : Nat) (entries : List Str) : Str :=
  '[' ::
    ((if entries.isEmpty then [] else '\n' :: (itemLines entries ++ List.replicate indent ' ')) ++
      [']'])

theorem denotes_block (indent : Nat) (entries : List Str) (data : List Datum)
    (each : List.Forall₂ Element entries data) : Denotes (block indent entries) (.array data) := by
  have blank : Space ['\n'] := fun c listed => List.mem_singleton.1 listed ▸ rfl
  cases each with
  | nil => exact .noItems [] (space_replicate 0)
  | cons head rest =>
    have lines := items_itemLines _ _ _ _ head rest
    have behind := items_behind _ _ _ (space_replicate indent) lines
    exact .array _ _ (items_ahead ['\n'] _ _ blank behind)

theorem items_joined (first : Str) (rest : List Str) (datum : Datum) (data : List Datum)
    (head : Element first datum) (each : List.Forall₂ Element rest data) :
    Items (([',', ' '] : Str).intercalate (first :: rest)) (datum :: data) := by
  induction each generalizing first datum with
  | nil =>
    rw [List.intercalate_singleton]
    exact .one first datum head
  | cons next others ih =>
    rename_i second datum' rest data
    have later := items_ahead [' '] _ _ (space_replicate 1) (ih second datum' next)
    rw [List.intercalate_cons_cons, List.append_assoc]
    exact .more first datum _ _ head later

theorem element_bare (text : Str) (datum : Datum) (well : Denotes text datum) :
    Element text datum := by
  have framed := Element.mk [] text [] datum (space_replicate 0) well (space_replicate 0)
  rwa [List.nil_append, List.append_nil] at framed

theorem denotes_joined (entries : List Str) (data : List Datum)
    (each : List.Forall₂ Denotes entries data) :
    Denotes ('[' :: (([',', ' '] : Str).intercalate entries ++ [']'])) (.array data) := by
  cases each with
  | nil => exact .noItems [] (space_replicate 0)
  | cons head rest =>
    apply Denotes.array
    apply items_joined
    · exact element_bare _ _ head
    · exact rest.imp element_bare

end DeepDiffForge.JsonGrammar

import DeepDiffForge.Lib.JsonLayout
import DeepDiffForge.Lib.JsonValue
import Mathlib.Algebra.GroupWithZero.Nat
import Mathlib.Data.List.Nodup
import Mathlib.Data.List.Perm.Basic

/-! JSON objects as maps: made member by member, read and changed by name, and measured in the
bytes of their compact text; and what a text denotes once it is read into them. -/

namespace DeepDiffForge.Json
open Text JsonGrammar

def collect (members : List (Str × Value)) : List (Str × Value) :=
  members.foldl (fun held entry => setMember entry.1 entry.2 held) []

def record (members : List (Str × Value)) : Value := .object (collect members)

def entry (name : String) (value : Value) : Str × Value := (name.toList, value)

def Value.index (value : Value) (name : Str) : Value := (value.get name).getD .null

/-- The value with a new one set at a path of names; nothing where the path goes through a value
that is neither an object nor null. -/
def assign (new : Value) : List Str → Value → Option Value
  | [], _ => some new
  | name :: rest, .object members =>
      (assign new rest ((lookup members name).getD .null)).map fun held =>
        .object (setMember name held members)
  | name :: rest, .null => (assign new rest .null).map fun held => .object [(name, held)]
  | _ :: _, _ => none

def extent (text : Str) : Nat := (Utf8.encode text).length

theorem lookup_cons (name : Str) (value : Value) (members : List (Str × Value)) (wanted : Str) :
    lookup ((name, value) :: members) wanted =
      if name = wanted then some value else lookup members wanted := by
  unfold lookup
  rw [List.find?_cons]
  by_cases same : name = wanted
  · simp [same]
  · simp [same]

theorem lookup_setMember (name : Str) (value : Value) (members : List (Str × Value))
    (wanted : Str) :
    lookup (setMember name value members) wanted =
      if name = wanted then some value else lookup members wanted := by
  induction members with
  | nil => rw [setMember, lookup_cons]
  | cons entry rest ih =>
    obtain ⟨other, held⟩ := entry
    rw [setMember]
    by_cases same : other = name
    · subst same
      rw [if_pos rfl, lookup_cons, lookup_cons]
      split_ifs <;> rfl
    · rw [if_neg same]
      by_cases before : name.map Char.toNat < other.map Char.toNat
      · rw [if_pos before, lookup_cons]
      · rw [if_neg before, lookup_cons, ih, lookup_cons]
        by_cases first : other = wanted
        · rw [if_pos first, if_neg (fun second => same (first.trans second.symm)), if_pos first]
        · rw [if_neg first, if_neg first]

theorem lookup_none (members : List (Str × Value)) (name : Str)
    (absent : name ∉ members.map (·.1)) : lookup members name = none := by
  induction members with
  | nil => rfl
  | cons entry rest ih =>
    rw [List.map_cons, List.mem_cons, not_or] at absent
    rw [lookup_cons, if_neg (Ne.symm absent.1), ih absent.2]

theorem lookup_folded (members held : List (Str × Value)) (apart : (members.map (·.1)).Nodup)
    (name : Str) :
    lookup (members.foldl (fun held entry => setMember entry.1 entry.2 held) held) name =
      (lookup members name).or (lookup held name) := by
  induction members generalizing held with
  | nil => rfl
  | cons entry rest ih =>
    rw [List.map_cons, List.nodup_cons] at apart
    rw [List.foldl_cons, ih _ apart.2, lookup_setMember, lookup_cons]
    by_cases same : entry.1 = name
    · rw [if_pos same, if_pos same, lookup_none rest name (same ▸ apart.1)]
      rfl
    · rw [if_neg same, if_neg same]

theorem get_record (members : List (Str × Value)) (apart : (members.map (·.1)).Nodup)
    (name : Str) : (record members).get name = lookup members name := by
  change lookup (collect members) name = _
  rw [collect, lookup_folded members [] apart]
  exact Option.or_none ..

theorem lookup_listed (members : List (Str × Value)) (apart : (members.map (·.1)).Nodup)
    (name : Str) (value : Value) (listed : (name, value) ∈ members) :
    lookup members name = some value := by
  induction members with
  | nil => cases listed
  | cons first rest ih =>
    rw [List.map_cons, List.nodup_cons] at apart
    rw [lookup_cons]
    rcases List.mem_cons.1 listed with rfl | later
    · rw [if_pos rfl]
    · have other : first.1 ≠ name := by
        intro same
        exact apart.1 (same ▸ List.mem_map_of_mem (f := (·.1)) later)
      rw [if_neg other, ih apart.2 later]

theorem get_listed (members : List (Str × Value)) (apart : (members.map (·.1)).Nodup)
    (name : Str) (value : Value) (listed : (name, value) ∈ members) :
    (record members).get name = some value := by
  rw [get_record members apart, lookup_listed members apart name value listed]

theorem index_of_get (value : Value) (name : Str) (held : Value)
    (found : value.get name = some held) : value.index name = held := by
  rw [Value.index, found]
  rfl

theorem get_set (name : Str) (value : Value) (members : List (Str × Value)) (wanted : Str) :
    (Value.object (setMember name value members)).get wanted =
      if name = wanted then some value else (Value.object members).get wanted :=
  lookup_setMember name value members wanted

theorem assign_member (new : Value) (name : Str) (members : List (Str × Value)) :
    assign new [name] (.object members) = some (.object (setMember name new members)) :=
  rfl

theorem assign_inner (new : Value) (outer inner : Str) (members held : List (Str × Value))
    (found : lookup members outer = some (.object held)) :
    assign new [outer, inner] (.object members) =
      some (.object (setMember outer (.object (setMember inner new held)) members)) := by
  rw [assign, found]
  rfl

theorem setMember_perm (name : Str) (value : Value) (members : List (Str × Value))
    (fresh : name ∉ members.map (·.1)) :
    (setMember name value members).Perm ((name, value) :: members) := by
  induction members with
  | nil => exact .refl _
  | cons entry rest ih =>
    obtain ⟨other, held⟩ := entry
    rw [List.map_cons, List.mem_cons, not_or] at fresh
    rw [setMember, if_neg (Ne.symm fresh.1)]
    split_ifs
    · exact .refl _
    · exact ((ih fresh.2).cons _).trans (.swap _ _ _)

theorem folded_perm (members held : List (Str × Value))
    (apart : ((held ++ members).map (·.1)).Nodup) :
    (members.foldl (fun held entry => setMember entry.1 entry.2 held) held).Perm
      (held ++ members) := by
  induction members generalizing held with
  | nil => rw [List.append_nil]; exact .refl _
  | cons entry rest ih =>
    have placed : (held ++ entry :: rest).Perm ((entry :: held) ++ rest) := List.perm_middle
    have apart' := (placed.map (·.1)).nodup_iff.1 apart
    have fresh : entry.1 ∉ held.map (·.1) := by
      rw [List.cons_append, List.map_cons, List.nodup_cons, List.map_append,
        List.mem_append, not_or] at apart'
      exact apart'.1.1
    have placing := setMember_perm entry.1 entry.2 held fresh
    have next := (placing.append_right rest).trans placed.symm
    rw [List.foldl_cons]
    exact (ih _ ((next.map (·.1)).nodup_iff.2 apart)).trans next

theorem collect_perm (members : List (Str × Value)) (apart : (members.map (·.1)).Nodup) :
    (collect members).Perm members :=
  folded_perm members [] apart

/-! ### Bytes -/

theorem extent_append (one two : Str) : extent (one ++ two) = extent one + extent two := by
  rw [extent, Utf8.encode_append, List.length_append]
  rfl

theorem extent_cons (c : Char) (text : Str) : extent (c :: text) = extent [c] + extent text :=
  extent_append [c] text

theorem extent_plain (text : Str) (ordinary : ∀ c ∈ text, plain c = true) :
    extent text = text.length :=
  encode_printable text fun c listed => printable_of_plain c (ordinary c listed)

theorem extent_sign (c : Char) (ascii : printable c = true) : extent [c] = 1 :=
  encode_printable [c] fun _ listed => List.mem_singleton.1 listed ▸ ascii

theorem extent_string (text : Str) (ordinary : ∀ c ∈ text, plain c = true) :
    extent (string text) = text.length + 2 := by
  rw [string_plain text ordinary, extent_cons, extent_append, extent_plain text ordinary,
    extent_sign '"' rfl]
  omega

theorem extent_joined (items : List Str) (filled : items ≠ []) :
    extent ([','].intercalate items) + 1 = (items.map fun item => extent item + 1).sum := by
  induction items with
  | nil => exact absurd rfl filled
  | cons item rest ih =>
    cases rest with
    | nil => simp [List.intercalate_singleton]
    | cons other rest =>
      have later := ih (List.cons_ne_nil other rest)
      rw [List.intercalate_cons_cons, List.map_cons, List.sum_cons, ← later, extent_append,
        extent_append, extent_sign ',' rfl]
      omega

theorem extent_array (items : List Str) (filled : items ≠ []) :
    extent (array items) = (items.map fun item => extent item + 1).sum + 1 := by
  have joined := extent_joined items filled
  rw [array, extent_cons, extent_append, extent_sign '[' rfl, extent_sign ']' rfl]
  omega

theorem extent_array_le (items : List Str) :
    extent (array items) ≤ (items.map fun item => extent item + 1).sum + 2 := by
  cases items with
  | nil => exact Nat.le_of_eq (by decide)
  | cons item rest =>
    rw [extent_array _ (List.cons_ne_nil item rest)]
    exact Nat.le_succ _

theorem extent_member (name value : Str) :
    extent (member name value) = extent (string name) + 1 + extent value := by
  rw [member, extent_append, extent_cons, extent_sign ':' rfl]
  omega

theorem writeItems_map (items : List Value) : writeItems items = items.map Value.write := by
  induction items with
  | nil => rfl
  | cons item rest ih => rw [writeItems, ih, List.map_cons]

theorem writeMembers_map (members : List (Str × Value)) :
    writeMembers members = members.map fun entry => (entry.1, entry.2.write) := by
  induction members with
  | nil => rfl
  | cons entry rest ih => rw [writeMembers, ih, List.map_cons]

def share (entry : Str × Value) : Nat := extent (string entry.1) + extent entry.2.write + 2

/-- An object's bytes are its members' in whatever order they were set. -/
theorem extent_record (members : List (Str × Value)) (apart : (members.map (·.1)).Nodup)
    (filled : members ≠ []) :
    extent (record members).write = (members.map share).sum + 1 := by
  have same := collect_perm members apart
  have filled' : (collect members).map (fun entry => member entry.1 entry.2.write) ≠ [] := by
    intro absent
    rw [List.map_eq_nil_iff] at absent
    exact filled (List.perm_nil.1 (absent ▸ same.symm))
  have joined := extent_joined _ filled'
  have shares : ((collect members).map fun entry =>
      extent (member entry.1 entry.2.write) + 1) = (collect members).map share := by
    apply List.map_congr_left
    intro entry _
    rw [extent_member, share]
    omega
  rw [List.map_map] at joined
  change _ = ((collect members).map fun entry => extent (member entry.1 entry.2.write) + 1).sum
    at joined
  rw [shares, (same.map share).sum_nat] at joined
  rw [record, Value.write, object, writeMembers_map, List.map_map, extent_cons, extent_append,
    extent_sign '\x7b' rfl, extent_sign '\x7d' rfl]
  change 1 + (extent ([','].intercalate
    ((collect members).map fun entry => member entry.1 entry.2.write)) + 1) = _
  rw [joined, Nat.add_comm]

/-! ### What a text denotes, as a value -/

/-- A value that is read from a datum, its objects' members set in the order they stand in. -/
inductive ReadAs : Value → Datum → Prop
  | null : ReadAs .null .null
  | bool (value : Bool) : ReadAs (.bool value) (.bool value)
  | number (n : Nat) : ReadAs (.integer n) (JsonGrammar.number n)
  | text (text : Str) : ReadAs (.string text) (JsonGrammar.text text)
  | array (items : List Value) (data : List Datum) (each : List.Forall₂ ReadAs items data) :
      ReadAs (.array items) (.array data)
  | object (members : List (Str × Value)) (data : List (List Nat × Datum))
      (apart : (members.map (·.1)).Nodup)
      (names : data.map (·.1) = members.map fun entry => utf16 entry.1)
      (each : List.Forall₂ ReadAs (members.map (·.2)) (data.map (·.2))) :
      ReadAs (record members) (.object data)

def Agrees (member : Str × Value) (datum : List Nat × Datum) : Prop :=
  datum.1 = utf16 member.1 ∧ ReadAs member.2 datum.2

theorem reads_record (members : List (Str × Value)) (data : List (List Nat × Datum))
    (apart : (members.map (·.1)).Nodup) (agree : List.Forall₂ Agrees members data) :
    ReadAs (record members) (.object data) := by
  refine .object members data apart ?_ ?_
  · clear apart
    induction agree with
    | nil => rfl
    | cons head _ ih => rw [List.map_cons, List.map_cons, head.1, ih]
  · clear apart
    induction agree with
    | nil => exact .nil
    | cons head _ ih => exact .cons head.2 ih

theorem agrees_when (condition : Prop) [Decidable condition] (name : String) (value : Value)
    (datum : Datum) (read : ReadAs value datum) :
    List.Forall₂ Agrees (if condition then [entry name value] else [])
      (if condition then [(utf16 name.toList, datum)] else []) := by
  split_ifs
  · exact .cons ⟨rfl, read⟩ .nil
  · exact .nil

theorem agrees_option {α : Type} (found : Option α) (name : String) (value : α → Value)
    (datum : α → Datum) (read : ∀ item, ReadAs (value item) (datum item)) :
    List.Forall₂ Agrees (found.elim [] fun item => [entry name (value item)])
      (found.elim [] fun item => [(utf16 name.toList, datum item)]) := by
  cases found with
  | none => exact .nil
  | some item => exact .cons ⟨rfl, read item⟩ .nil

theorem agrees_next (name : String) (value : Value) (datum : Datum)
    (members : List (Str × Value)) (data : List (List Nat × Datum)) (read : ReadAs value datum)
    (rest : List.Forall₂ Agrees members data) :
    List.Forall₂ Agrees (entry name value :: members) ((utf16 name.toList, datum) :: data) :=
  .cons ⟨rfl, read⟩ rest

end DeepDiffForge.Json

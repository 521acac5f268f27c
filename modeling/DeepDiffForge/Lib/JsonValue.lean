import DeepDiffForge.Lib.Json
import Mathlib.Algebra.Group.Int.Defs

/-! JSON values as a parser holds them, and their compact text. -/

namespace DeepDiffForge.Json
open Text

/-- The text of a number that is no integer of the machine's: ordinary ASCII. -/
structure FloatText where
  text : Str
  ordinary : ∀ c ∈ text, plain c = true

/-- An object's members stand in the order they are written in. -/
inductive Value
  | null
  | bool (value : Bool)
  | integer (value : Int)
  | float (value : FloatText)
  | string (text : Str)
  | array (items : List Value)
  | object (members : List (Str × Value))

def integerText : Int → Str
  | .ofNat n => decimal n
  | .negSucc n => '-' :: decimal (n + 1)

mutual

def Value.write : Value → Str
  | .null => Json.null
  | .bool value => Json.bool value
  | .integer value => integerText value
  | .float value => value.text
  | .string text => Json.string text
  | .array items => Json.array (writeItems items)
  | .object members => Json.object (writeMembers members)

def writeItems : List Value → List Str
  | [] => []
  | item :: rest => item.write :: writeItems rest

def writeMembers : List (Str × Value) → List (Str × Str)
  | [] => []
  | (name, value) :: rest => (name, value.write) :: writeMembers rest

end

/-- The member of a name, as `Value::get` finds it in an object. -/
def lookup (members : List (Str × Value)) (name : Str) : Option Value :=
  (members.find? (·.1 = name)).map (·.2)

def Value.asText : Value → Option Str
  | .string text => some text
  | _ => none

def Value.asObject : Value → Option (List (Str × Value))
  | .object members => some members
  | _ => none

def Value.asArray : Value → Option (List Value)
  | .array items => some items
  | _ => none

def Value.asU64 : Value → Option Nat
  | .integer value => if 0 ≤ value ∧ value < 2 ^ 64 then some value.toNat else none
  | _ => none

def Value.get (value : Value) (name : Str) : Option Value :=
  value.asObject.bind fun members => lookup members name

mutual

def Value.Keyed : Value → Prop
  | .array items => KeyedItems items
  | .object members => (members.map (·.1)).Nodup ∧ KeyedMembers members
  | _ => True

def KeyedItems : List Value → Prop
  | [] => True
  | item :: rest => item.Keyed ∧ KeyedItems rest

def KeyedMembers : List (Str × Value) → Prop
  | [] => True
  | (_, value) :: rest => value.Keyed ∧ KeyedMembers rest

end

theorem keyed_member (members : List (Str × Value)) (keyed : KeyedMembers members) (name : Str)
    (value : Value) (listed : (name, value) ∈ members) : value.Keyed := by
  induction members with
  | nil => cases listed
  | cons entry rest ih =>
    obtain ⟨other, held⟩ := entry
    rw [KeyedMembers] at keyed
    rcases List.mem_cons.1 listed with same | later
    · cases same
      exact keyed.1
    · exact ih keyed.2 later

theorem keyed_get (value : Value) (keyed : value.Keyed) (name : Str) (found : Value)
    (here : value.get name = some found) : found.Keyed := by
  obtain ⟨members, object, looked⟩ := Option.bind_eq_some_iff.1 here
  cases value <;> cases object
  rw [Value.Keyed] at keyed
  obtain ⟨entry, first, rfl⟩ := Option.map_eq_some_iff.1 looked
  exact keyed_member members keyed.2 entry.1 entry.2 (List.mem_of_find?_eq_some first)

def setMember (name : Str) (value : Value) : List (Str × Value) → List (Str × Value)
  | [] => [(name, value)]
  | (other, held) :: rest =>
      if other = name then (name, value) :: rest
      else if name.map Char.toNat < other.map Char.toNat then (name, value) :: (other, held) :: rest
      else (other, held) :: setMember name value rest

theorem mem_writeMembers (members : List (Str × Value)) (name : Str) (value : Value)
    (listed : (name, value) ∈ members) : (name, value.write) ∈ writeMembers members := by
  induction members with
  | nil => exact absurd listed List.not_mem_nil
  | cons entry rest ih =>
    rw [writeMembers]
    rcases List.mem_cons.1 listed with rfl | later
    · exact List.mem_cons_self ..
    · exact List.mem_cons_of_mem _ (ih later)

theorem size_written (members : List (Str × Value)) (name : Str) (value : Value)
    (listed : (name, value) ∈ members) :
    size value.write ≤ size (Value.object members).write := by
  have written := mem_writeMembers members name value listed
  have listed' := List.mem_map_of_mem (f := fun entry : Str × Str => member entry.1 entry.2) written
  have within := size_le_cost _ _ listed'
  rw [size_member] at within
  rw [Value.write, size_object _ (List.ne_nil_of_mem written)]
  dsimp only at within
  omega

theorem plain_integerText (value : Int) : ∀ c ∈ integerText value, plain c = true := by
  cases value with
  | ofNat n => exact plain_decimal n
  | negSucc n =>
    intro c listed
    rcases List.mem_cons.1 listed with rfl | digit
    · decide
    · exact plain_decimal (n + 1) c digit

mutual

theorem unbroken_write (value : Value) : Unbroken value.write := by
  cases value with
  | null => exact unbroken_printable _ (List.all_eq_true.1 (by decide))
  | bool value => exact unbroken_bool value
  | integer value =>
    exact unbroken_printable _ fun c listed =>
      printable_of_plain c (plain_integerText value c listed)
  | float value =>
    exact unbroken_printable _ fun c listed => printable_of_plain c (value.ordinary c listed)
  | string text => exact unbroken_string text
  | array items => exact unbroken_array _ (unbroken_items items)
  | object members => exact unbroken_object _ (unbroken_members members)

theorem unbroken_items (items : List Value) : ∀ text ∈ writeItems items, Unbroken text := by
  cases items with
  | nil => exact fun _ listed => absurd listed List.not_mem_nil
  | cons item rest =>
    rw [writeItems, List.forall_mem_cons]
    exact ⟨unbroken_write item, unbroken_items rest⟩

theorem unbroken_members (members : List (Str × Value)) :
    ∀ entry ∈ writeMembers members, Unbroken entry.2 := by
  cases members with
  | nil => exact fun _ listed => absurd listed List.not_mem_nil
  | cons entry rest =>
    obtain ⟨name, value⟩ := entry
    rw [writeMembers, List.forall_mem_cons]
    exact ⟨unbroken_write value, unbroken_members rest⟩

end

/-- No control character, and none that a line-aware reader takes for a line end. -/
def LineSafe (text : Str) : Prop :=
  ∀ c ∈ text, 0x20 ≤ c.toNat ∧ needsLineSafeEscape c = false

theorem lineSafe_safe (text : Str) (unbroken : Unbroken text) : LineSafe (lineSafe text) := by
  intro c listed
  obtain ⟨source, held, escaped⟩ := List.mem_flatMap.1 listed
  rw [lineSafeChar] at escaped
  split_ifs at escaped with needs
  · have shown := printable_unicodeEscape source c escaped
    simp only [printable, Bool.and_eq_true, decide_eq_true_eq] at shown
    refine ⟨shown.1, ?_⟩
    simp only [needsLineSafeEscape, Bool.or_eq_false_iff, Bool.and_eq_false_iff,
      decide_eq_false_iff_not]
    omega
  · obtain rfl := List.mem_singleton.1 escaped
    exact ⟨unbroken c held, eq_false_of_ne_true needs⟩

theorem lineSafe_write (value : Value) : LineSafe (lineSafe value.write) :=
  lineSafe_safe _ (unbroken_write value)

end DeepDiffForge.Json

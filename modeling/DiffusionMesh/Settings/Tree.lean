/-
# The tree of settings

Settings form a tree of tables and sequences with values at its leaves. Every source lays its
values over those of the sources before it:

| the source gives | at the place of its key |
| --- | --- |
| a table | each of its entries is laid over the table there |
| any other value | replaces what is there |

What stands in the way of a path gives way to a new table or sequence. A value remembers the
source that gave it; tables and sequences that paths make have none.

Main statement: `child?_atName`, a change at one name leaves the settings at all others alone.
-/

import DiffusionMesh.Settings.KeyPath
import DiffusionMesh.Toml.Value

namespace DiffusionMesh
namespace Settings

/-- A tree of settings. Values that no path has led into are kept as they were given. -/
inductive Tree where
  | nothing
  | given (value : Toml.Value) (origin : Option String)
  | sequence (items : List Tree) (origin : Option String)
  | table (entries : List (String × Tree)) (origin : Option String)
deriving Repr, Inhabited

namespace Tree

/-- The entries of a table with its source. -/
def entries? : Tree → Option (List (String × Tree) × Option String)
  | .table entries origin => some (entries, origin)
  | .given (.table entries) origin =>
    some (entries.map fun (key, v) => (key, .given v origin), origin)
  | _ => none

/-- The items of a sequence with its source. -/
def items? : Tree → Option (List Tree × Option String)
  | .sequence items origin => some (items, origin)
  | .given (.array items) origin => some (items.map (.given · origin), origin)
  | _ => none

/-- The setting at a name in a table. -/
def child? (key : String) (t : Tree) : Option Tree :=
  t.entries?.bind fun (entries, _) => entries.lookup key

/-- The setting at a position in a sequence. -/
def item? (i : Nat) (t : Tree) : Option Tree := t.items?.bind fun (items, _) => items[i]?

/-- Changes the entry of a name, or adds one. -/
def changeEntry (change : Tree → Tree) (key : String) :
    List (String × Tree) → List (String × Tree)
  | [] => [(key, change .nothing)]
  | (k, t) :: rest =>
    if k = key then (k, change t) :: rest else (k, t) :: changeEntry change key rest

/-- Changes the setting at a name. What is not a table gives way to an empty one. -/
def atName (change : Tree → Tree) (key : String) (t : Tree) : Tree :=
  let (entries, origin) := t.entries?.getD ([], none)
  .table (changeEntry change key entries) origin

theorem lookup_changeEntry (change : Tree → Tree) (key name : String)
    (entries : List (String × Tree)) :
    (changeEntry change key entries).lookup name =
      if name = key then some (change ((entries.lookup key).getD .nothing))
      else entries.lookup name := by
  induction entries with
  | nil =>
    by_cases h : name = key
    · simp [changeEntry, h]
    · simp [changeEntry, List.lookup_cons, beq_eq_false_iff_ne.2 h, h]
  | cons entry rest ih =>
    obtain ⟨k, t⟩ := entry
    by_cases hk : k = key
    · subst hk
      by_cases h : name = k
      · simp [changeEntry, h]
      · simp [changeEntry, List.lookup_cons, beq_eq_false_iff_ne.2 h, h]
    · have hkey : (key == k) = false := beq_eq_false_iff_ne.2 fun e => hk e.symm
      by_cases h : name = k
      · subst h
        simp [changeEntry, hk]
      · simp [changeEntry, List.lookup_cons, beq_eq_false_iff_ne.2 h, hk, hkey, ih]

/-- **A change at one name leaves the settings at all others alone.** -/
theorem child?_atName (change : Tree → Tree) (key name : String) (t : Tree) :
    (t.atName change key).child? name =
      if name = key then some (change ((t.child? key).getD .nothing)) else t.child? name := by
  unfold atName child?
  cases h : t.entries? with
  | none => simp [entries?, lookup_changeEntry]
  | some found => simp [entries?, lookup_changeEntry]

/-- The number of items of a sequence; what is not a sequence has none. -/
def length (t : Tree) : Nat := t.items?.elim 0 fun (items, _) => items.length

/-- No sequence has room for this many items, which is 2 to the power of 56. -/
def room : Nat := 72057594037927936

/-- The place of a position in a sequence. A negative position counts from the end. There is no
place before the start, and none beyond the room of a sequence. -/
def placeOf? (i : Int) (t : Tree) : Option Nat :=
  if 0 ≤ i then if i.toNat < room then some i.toNat else none
  else if (-i).toNat ≤ t.length then some (t.length - (-i).toNat)
  else none

/-- Changes the setting at a place in a sequence. What is not a sequence gives way to an empty
one, and a sequence that is too short grows at its end. -/
def atPlace (change : Tree → Tree) (place : Nat) (t : Tree) : Tree :=
  let (items, origin) := t.items?.getD ([], none)
  let padding := List.replicate (place + 1 - items.length) Tree.nothing
  .sequence ((items ++ padding).modify place change) origin

mutual

/-- Lays a value over what stands at its place. -/
def overlay (origin : Option String) : Toml.Value → Tree → Tree
  | .table entries, .nothing => overlayEntries origin entries (.table [] none)
  | .table entries, t => overlayEntries origin entries t
  | v, _ => .given v origin

/-- Lays the entries of a table over a tree, in their order. -/
def overlayEntries (origin : Option String) : Toml.Entries → Tree → Tree
  | [], t => t
  | entry :: rest, t => overlayEntries origin rest (overlayEntry origin entry t)

/-- Lays one entry of a table over a tree. -/
def overlayEntry (origin : Option String) : String × Toml.Value → Tree → Tree
  | (key, v), t => t.atName (overlay origin v) (Text.lowerCase key)

end

/-- Sets the value at the end of a path; nothing if the path asks for a place that a sequence cannot
have. An item of a sequence takes a table as it is. -/
def set (origin : Option String) (v : Toml.Value) : KeyPath → Tree → Option Tree
  | [], t => some (overlay origin v t)
  | [.index i], t => do
    let place ← t.placeOf? i
    return t.atPlace (fun _ => .given v origin) place
  | .index i :: path, t => do
    let place ← t.placeOf? i
    let inner ← set origin v path ((t.item? place).getD .nothing)
    return t.atPlace (fun _ => inner) place
  | .name key :: path, t => do
    let inner ← set origin v path ((t.child? key).getD .nothing)
    return t.atName (fun _ => inner) key

end Tree
end Settings
end DiffusionMesh

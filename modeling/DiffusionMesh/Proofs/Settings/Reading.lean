/-
# The eight settings and how they are read

A configuration is eight whole numbers. Each has a place in the tree of settings, a name among the
variables of the environment, and a range:

| setting | place | variable | range |
| --- | --- | --- | --- |
| cells, iterations | a name | `HEATMESH_` and the name | 32 bits |
| words of a message, capacity of a link | a name | `HEATMESH_` and the name | 64 bits |
| a side of the boundary | `boundary`, then the side | `HEATMESH_BOUNDARY__` and the side | 32 bits with sign |

A number of the range is read as itself, and so is its decimal text. A tree that holds nothing else at
the eight places (`Tree.Settled`) describes a configuration: each setting is the number in its place,
or its default. Main statement: `Tree.Settled.configOf`.
-/

import DiffusionMesh.Settings.Load
import Mathlib.Data.Option.Defs
import Mathlib.Tactic.Choose

namespace DiffusionMesh

/-- Digits have the number that they stand for in base ten. -/
theorem Text.naturalOf?_eq {digits : List Char} (hne : digits ≠ [])
    (hdigits : ∀ c ∈ digits, c.isDigit = true) :
    Text.naturalOf? digits = some (Nat.ofDigitChars 10 digits 0) := by
  have hsome : (!digits.isEmpty && digits.all Char.isDigit) = true := by
    rw [Bool.and_eq_true, Bool.not_eq_true', List.isEmpty_eq_false_iff]
    exact ⟨hne, List.all_eq_true.2 hdigits⟩
  rw [naturalOf?, if_pos hsome]
  rfl

/-- A character that is no capital letter is its own lower case. -/
theorem Text.lowerChar_of_not_isUpper {c : Char} (hkelvin : c ≠ '\u212A')
    (hupper : ¬ c.isUpper = true) : lowerChar c = c := by
  rw [lowerChar, if_neg hkelvin]
  exact dif_neg fun h => hupper (decide_eq_true h)

/-- A digit is its own lower case. -/
theorem Text.lowerChar_of_isDigit {c : Char} (h : c.isDigit = true) : lowerChar c = c := by
  refine lowerChar_of_not_isUpper ?_ fun hupper => ?_
  · rintro rfl
    cases h
  · rw [Char.isDigit, Bool.and_eq_true, decide_eq_true_eq, decide_eq_true_eq] at h
    have hupper := of_decide_eq_true hupper
    exact absurd (UInt32.le_trans hupper.1 h.2) (by decide)

namespace Settings

/-- One of the eight settings. -/
inductive Setting where
  | cells
  | messageWords
  | iterations
  | linkCapacity
  | side (d : Direction)
deriving DecidableEq

/-- A text is the decimal text of a number: digits, with a sign in front or not. Only a number that
may be negative can have a minus. -/
inductive Decimal (signed : Bool) : String → Int → Prop where
  | bare {digits : List Char} : digits ≠ [] → (∀ c ∈ digits, c.isDigit = true) →
      Decimal signed (String.ofList digits) (Nat.ofDigitChars 10 digits 0)
  | plus {digits : List Char} : digits ≠ [] → (∀ c ∈ digits, c.isDigit = true) →
      Decimal signed (String.ofList ('+' :: digits)) (Nat.ofDigitChars 10 digits 0)
  | minus {digits : List Char} : signed = true → digits ≠ [] → (∀ c ∈ digits, c.isDigit = true) →
      Decimal signed (String.ofList ('-' :: digits)) (-(Nat.ofDigitChars 10 digits 0 : Int))

namespace Setting

/-- The names that lead to a setting, from the top of a document. -/
def names : Setting → List String
  | .cells => ["cells"]
  | .messageWords => ["message_words"]
  | .iterations => ["iterations"]
  | .linkCapacity => ["link_capacity"]
  | .side d => ["boundary", d.key]

/-- The place of a setting in the tree. -/
def path (s : Setting) : KeyPath := s.names.map .name

/-- The variable of the environment for a setting, in lower case. -/
def variableName (s : Setting) : String := Layer.variableStart ++ "__".intercalate s.names

/-- Whether a setting may be negative. -/
def signed : Setting → Bool
  | .side _ => true
  | _ => false

/-- The numbers of the range of a setting. -/
def Fits : Setting → Int → Prop
  | .cells, n | .iterations, n => 0 ≤ n ∧ n < UInt32.size
  | .messageWords, n | .linkCapacity, n => 0 ≤ n ∧ n < UInt64.size
  | .side _, n => Int32.minValue.toInt ≤ n ∧ n ≤ Int32.maxValue.toInt

instance : (s : Setting) → (n : Int) → Decidable (s.Fits n)
  | .cells, n | .iterations, n => inferInstanceAs (Decidable (0 ≤ n ∧ n < UInt32.size))
  | .messageWords, n | .linkCapacity, n => inferInstanceAs (Decidable (0 ≤ n ∧ n < UInt64.size))
  | .side _, n =>
    inferInstanceAs (Decidable (Int32.minValue.toInt ≤ n ∧ n ≤ Int32.maxValue.toInt))

/-- A setting of a configuration. -/
def of (c : Config) : Setting → Int
  | .cells => c.cells.toNat
  | .messageWords => c.messageWords.toNat
  | .iterations => c.iterations.toNat
  | .linkCapacity => c.linkCapacity.toNat
  | .side d => (c.boundary.get d).toInt

/-- A configuration is nothing but its eight settings. -/
theorem eq_of_of {c c' : Config} (h : ∀ s : Setting, s.of c = s.of c') : c = c' := by
  have hcells := UInt32.toNat_inj.1 (Int.ofNat.inj (h .cells))
  have hwords := UInt64.toNat_inj.1 (Int.ofNat.inj (h .messageWords))
  have hiterations := UInt32.toNat_inj.1 (Int.ofNat.inj (h .iterations))
  have hcapacity := UInt64.toNat_inj.1 (Int.ofNat.inj (h .linkCapacity))
  have hboundary := Compass.ext_get fun d => Int32.toInt_inj.1 (h (.side d))
  obtain ⟨cells, words, iterations, capacity, boundary⟩ := c
  obtain ⟨cells', words', iterations', capacity', boundary'⟩ := c'
  rw [Config.mk.injEq]
  exact ⟨hcells, hwords, hiterations, hcapacity, hboundary⟩

/-- A value gives a setting a number of its range, as a whole number or as a decimal text. -/
inductive Gives (s : Setting) : Toml.Value → Int → Prop where
  | integer {n : Int} : s.Fits n → Gives s (.integer n) n
  | text {text : String} {n : Int} : s.Fits n → Decimal s.signed text n → Gives s (.text text) n

theorem Gives.fits {s : Setting} {v : Toml.Value} {n : Int} (h : s.Gives v n) : s.Fits n := by
  cases h with
  | integer hfits => exact hfits
  | text hfits => exact hfits

end Setting

/-! ### Numbers -/

section Numbers

variable {signed : Bool} {text key : String} {n : Int} {digits : List Char} {s : Setting}
  {v : Toml.Value}

theorem unsigned?_of_digits (hne : digits ≠ []) (hdigits : ∀ c ∈ digits, c.isDigit = true) :
    Text.unsigned? (String.ofList digits) = some (Nat.ofDigitChars 10 digits 0) := by
  rw [Text.unsigned?, String.toList_ofList]
  split
  · exact absurd (hdigits '+' List.mem_cons_self) (by decide)
  · exact Text.naturalOf?_eq hne hdigits

theorem unsigned?_of_plus (hne : digits ≠ []) (hdigits : ∀ c ∈ digits, c.isDigit = true) :
    Text.unsigned? (String.ofList ('+' :: digits)) = some (Nat.ofDigitChars 10 digits 0) := by
  rw [Text.unsigned?, String.toList_ofList]
  exact Text.naturalOf?_eq hne hdigits

/-- A number of a setting that may be negative is read from its decimal text. -/
theorem Decimal.signed? (h : Decimal signed text n) : Text.signed? text = some n := by
  rw [Text.signed?]
  cases h with
  | bare hne hdigits =>
    rw [String.toList_ofList]
    split
    · exact absurd (hdigits '-' List.mem_cons_self) (by decide)
    · rw [unsigned?_of_digits hne hdigits]
      rfl
  | plus hne hdigits =>
    rw [String.toList_ofList]
    split
    · next h => cases h
    · rw [unsigned?_of_plus hne hdigits]
      rfl
  | minus _ hne hdigits =>
    rw [String.toList_ofList]
    split
    · next h =>
      obtain ⟨-, rfl⟩ := List.cons.inj h
      rw [Text.naturalOf?_eq hne hdigits]
      rfl
    · next h => exact absurd rfl (h _)

/-- A number of a setting that is never negative is read from its decimal text. -/
theorem Decimal.unsigned? (h : Decimal false text n) :
    (Text.unsigned? text).map Int.ofNat = some n := by
  cases h with
  | bare hne hdigits =>
    rw [unsigned?_of_digits hne hdigits]
    rfl
  | plus hne hdigits =>
    rw [unsigned?_of_plus hne hdigits]
    rfl
  | minus hsigned => cases hsigned

/-- A decimal text is no word for yes or no, as there is a digit in it. -/
theorem Decimal.lowerCase_ne (h : Decimal signed text n) (word : String)
    (hword : word.toList.all (!·.isDigit) = true) : Text.lowerCase text ≠ word := by
  have hdigit : ∃ c ∈ text.toList, c.isDigit = true := by
    cases h with
    | bare hne hdigits | plus hne hdigits | minus _ hne hdigits =>
      obtain ⟨c, hc⟩ := List.exists_mem_of_ne_nil _ hne
      exact ⟨c, by simp [hc], hdigits c hc⟩
  obtain ⟨c, hc, hisdigit⟩ := hdigit
  rintro rfl
  have hmem : c ∈ (Text.lowerCase text).toList := by
    rw [Text.lowerCase, String.toList_map]
    exact List.mem_map.2 ⟨c, hc, Text.lowerChar_of_isDigit hisdigit⟩
  have hother := List.all_eq_true.1 hword c hmem
  rw [hisdigit] at hother
  cases hother

theorem Decimal.numberOfText? (h : Decimal signed text n) (hleast : least signed ≤ n)
    (hgreatest : n ≤ greatest signed) : numberOfText? signed text = some n := by
  have hspelled : (if signed then Text.signed? text else (Text.unsigned? text).map Int.ofNat) =
      some n := by
    cases signed with
    | true => exact h.signed?
    | false => exact h.unsigned?
  have hrange : (decide (least signed ≤ n) && decide (n ≤ greatest signed)) = true := by
    rw [Bool.and_eq_true, decide_eq_true_eq, decide_eq_true_eq]
    exact ⟨hleast, hgreatest⟩
  have hyes : ¬ (Text.lowerCase text = "true" || Text.lowerCase text = "on" ||
      Text.lowerCase text = "yes") = true := by
    simp [h.lowerCase_ne "true" (by decide), h.lowerCase_ne "on" (by decide),
      h.lowerCase_ne "yes" (by decide)]
  have hno : ¬ (Text.lowerCase text = "false" || Text.lowerCase text = "off" ||
      Text.lowerCase text = "no") = true := by
    simp [h.lowerCase_ne "false" (by decide), h.lowerCase_ne "off" (by decide),
      h.lowerCase_ne "no" (by decide)]
  rw [Settings.numberOfText?]
  simp only [if_neg hyes, if_neg hno, hspelled, Option.filter_some, hrange, if_true]

theorem Setting.Fits.least_le (h : s.Fits n) : least s.signed ≤ n := by
  cases s with
  | side => exact Int.le_trans (show Int64.minValue.toInt ≤ Int32.minValue.toInt by decide) h.1
  | cells | messageWords | iterations | linkCapacity => exact h.1

theorem Setting.Fits.le_greatest (h : s.Fits n) : n ≤ greatest s.signed := by
  cases s with
  | side => exact Int.le_trans h.2 (show Int32.maxValue.toInt ≤ Int64.maxValue.toInt by decide)
  | messageWords | linkCapacity => exact Int.le_sub_one_of_lt h.2
  | cells | iterations =>
    exact Int.le_trans (Int.le_of_lt h.2) (show (UInt32.size : Int) ≤ UInt64.size - 1 by decide)

/-- **What gives a number is read as that number.** -/
theorem Setting.Gives.number64 (h : s.Gives v n) (key : String) (origin : Option String) :
    number64 s.signed key (.given v origin) = .ok n := by
  cases h with
  | integer hfits =>
    have hnonneg : (!s.signed && decide (n < 0)) = false := by
      cases hsigned : s.signed with
      | true => rfl
      | false =>
        have hleast := hfits.least_le
        rw [hsigned] at hleast
        exact decide_eq_false (Int.not_lt.2 hleast)
    rw [Settings.number64, hnonneg]
    rfl
  | text hfits hdecimal =>
    rw [Settings.number64, hdecimal.numberOfText? hfits.least_le hfits.le_greatest]
    rfl

end Numbers

/-! ### Trees -/

namespace Tree

/-- The setting at a path of names. -/
def find? (path : KeyPath) (t : Tree) : Option Tree :=
  match path with
  | [] => some t
  | .name key :: path => (t.child? key).bind (find? path)
  | .index _ :: _ => none

theorem find?_name (t : Tree) (key : String) : t.find? [.name key] = t.child? key := by
  rw [find?]
  cases t.child? key <;> rfl

/-- A tree with nothing but a table in the place of the boundary. -/
def Grouped (t : Tree) : Prop := ∀ b, t.child? "boundary" = some b → b.entries?.isSome = true

/-- A tree with nothing but numbers in the places of settings. -/
structure Settled (t : Tree) (values : Setting → Option Int) : Prop where
  grouped : t.Grouped
  reads : ∀ s : Setting,
    Option.Rel (fun u n => ∃ v origin, u = .given v origin ∧ s.Gives v n) (t.find? s.path) (values s)

variable {t : Tree} {values : Setting → Option Int} {s : Setting}

/-- A setting that is read with its range is the number in its place, or the default. -/
theorem orDefault_of_rel {α : Type} {place : Option Tree} {value : Option Int}
    {read : Tree → Except WrongKind α} {toInt : α → Int} (default : α)
    (h : Option.Rel (fun u n => ∃ v origin, u = .given v origin ∧ s.Gives v n) place value)
    (hread : ∀ v n origin, s.Gives v n → ∃ a, read (.given v origin) = .ok a ∧ toInt a = n) :
    ∃ a, orDefault place read default = .ok a ∧ toInt a = value.getD (toInt default) := by
  cases h with
  | none => exact ⟨default, rfl, rfl⟩
  | some hplace =>
    obtain ⟨v, origin, rfl, hgives⟩ := hplace
    exact hread v _ origin hgives

theorem unsigned32_given (key : String) {v : Toml.Value} {n : Int} (origin : Option String)
    (h : s.Gives v n) (hsigned : s.signed = false) (hfits : 0 ≤ n ∧ n < UInt32.size) :
    ∃ a, unsigned32 key (.given v origin) = .ok a ∧ (a.toNat : Int) = n := by
  have hread := h.number64 key origin
  rw [hsigned] at hread
  refine ⟨UInt32.ofNat n.toNat, ?_, ?_⟩
  · rw [unsigned32, hread]
    exact if_pos hfits.2
  · rw [UInt32.toNat_ofNat_of_lt' (by omega)]
    omega

theorem unsigned64_given (key : String) {v : Toml.Value} {n : Int} (origin : Option String)
    (h : s.Gives v n) (hsigned : s.signed = false) (hfits : 0 ≤ n ∧ n < UInt64.size) :
    ∃ a, unsigned64 key (.given v origin) = .ok a ∧ (a.toNat : Int) = n := by
  have hread := h.number64 key origin
  rw [hsigned] at hread
  refine ⟨UInt64.ofNat n.toNat, ?_, ?_⟩
  · rw [unsigned64, hread]
    rfl
  · rw [UInt64.toNat_ofNat_of_lt' (by omega)]
    omega

theorem signed32_given (key : String) {v : Toml.Value} {n : Int} (origin : Option String)
    (h : s.Gives v n) (hsigned : s.signed = true)
    (hfits : Int32.minValue.toInt ≤ n ∧ n ≤ Int32.maxValue.toInt) :
    ∃ a, signed32 key (.given v origin) = .ok a ∧ a.toInt = n := by
  have hread := h.number64 key origin
  rw [hsigned] at hread
  refine ⟨Int32.ofInt n, ?_, ?_⟩
  · have hrange :
        (decide (Int32.minValue.toInt ≤ n) && decide (n ≤ Int32.maxValue.toInt)) = true := by
      rw [Bool.and_eq_true, decide_eq_true_eq, decide_eq_true_eq]
      exact hfits
    rw [signed32, hread]
    exact if_pos hrange
  · exact Int32.toInt_ofInt_of_le hfits.1 (Int.lt_of_le_of_lt hfits.2 (by decide))

/-- The boundary is read side by side. -/
theorem boundary_of_rel {b : Tree} (default : Compass Int32) (hentries : b.entries?.isSome = true)
    (h : ∀ d : Direction, Option.Rel (fun u n => ∃ v origin, u = .given v origin ∧
      (Setting.side d).Gives v n) (b.child? d.key) (values (.side d))) :
    ∃ c, Settings.boundary default b = .ok c ∧
      ∀ d, (c.get d).toInt = (values (.side d)).getD (default.get d).toInt := by
  obtain ⟨⟨entries, origin⟩, hb⟩ := Option.isSome_iff_exists.1 hentries
  have hside : ∀ d : Direction, ∃ a, orDefault (entries.lookup d.key)
      (signed32 s!"boundary.{d.key}") (default.get d) = .ok a ∧
      a.toInt = (values (.side d)).getD (default.get d).toInt := by
    intro d
    have hd := h d
    rw [child?, hb] at hd
    exact orDefault_of_rel _ hd fun v n origin hgives =>
      signed32_given _ origin hgives rfl hgives.fits
  choose f hread hvalue using hside
  refine ⟨.ofFn f, ?_, fun d => by rw [Compass.get_ofFn, hvalue]⟩
  simp only [Settings.boundary, hb, hread]
  rfl

/-- A setting at the top of a settled tree. -/
theorem Settled.field {α : Type} (h : t.Settled values) {key : String} (hpath : s.path = [.name key])
    {read : Tree → Except WrongKind α} {toInt : α → Int} (default : α)
    (hread : ∀ v n origin, s.Gives v n → ∃ a, read (.given v origin) = .ok a ∧ toInt a = n) :
    ∃ a, orDefault (t.child? key) read default = .ok a ∧
      toInt a = (values s).getD (toInt default) := by
  refine orDefault_of_rel default ?_ hread
  rw [← t.find?_name, ← hpath]
  exact h.reads s

/-- The boundary of a settled tree. -/
theorem Settled.sides (h : t.Settled values) (default : Compass Int32) :
    ∃ c, orDefault (t.child? "boundary") (Settings.boundary default) default = .ok c ∧
      ∀ d, (c.get d).toInt = (values (.side d)).getD (default.get d).toInt := by
  have hreads : ∀ d : Direction, Option.Rel _ ((t.child? "boundary").bind (find? [.name d.key]))
      (values (.side d)) := fun d => h.reads (.side d)
  cases hchild : t.child? "boundary" with
  | none =>
    refine ⟨default, rfl, fun d => ?_⟩
    have hd := hreads d
    rw [hchild] at hd
    cases hvalue : values (.side d) with
    | none => rfl
    | some n =>
      rw [hvalue] at hd
      cases hd
  | some b =>
    refine boundary_of_rel default (h.grouped b hchild) fun d => ?_
    have hd := hreads d
    rwa [hchild, Option.bind_some, b.find?_name] at hd

/-- **A settled tree describes a configuration**: each setting is the number in its place, or the
default. -/
theorem Settled.configOf (h : t.Settled values) :
    ∃ c, Settings.configOf t = .ok c ∧ ∀ s : Setting, s.of c = (values s).getD (s.of {}) := by
  let d : Config := {}
  obtain ⟨cells, hcells, hcells'⟩ := h.field (s := .cells) rfl d.cells
    fun v n origin hgives => unsigned32_given "cells" origin hgives rfl hgives.fits
  obtain ⟨words, hwords, hwords'⟩ := h.field (s := .messageWords) rfl d.messageWords
    fun v n origin hgives => unsigned64_given "message_words" origin hgives rfl hgives.fits
  obtain ⟨iterations, hiterations, hiterations'⟩ := h.field (s := .iterations) rfl d.iterations
    fun v n origin hgives => unsigned32_given "iterations" origin hgives rfl hgives.fits
  obtain ⟨capacity, hcapacity, hcapacity'⟩ := h.field (s := .linkCapacity) rfl d.linkCapacity
    fun v n origin hgives => unsigned64_given "link_capacity" origin hgives rfl hgives.fits
  obtain ⟨sides, hsides, hsides'⟩ := h.sides d.boundary
  refine ⟨⟨cells, words, iterations, capacity, sides⟩, ?_, fun s => ?_⟩
  · simp only [Settings.configOf]
    rw [hcells, hwords, hiterations, hcapacity, hsides]
    rfl
  · cases s with
    | cells => exact hcells'
    | messageWords => exact hwords'
    | iterations => exact hiterations'
    | linkCapacity => exact hcapacity'
    | side d => exact hsides' d

end Tree
end Settings
end DiffusionMesh

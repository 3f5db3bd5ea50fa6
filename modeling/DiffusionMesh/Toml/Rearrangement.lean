/-
# Tables in another order

A program that keeps the entries of a table in no order may come upon them in any. So what it goes
through is the table of the text, rearranged:

| a value | rearranged |
| --- | --- |
| a table | its values rearranged, and its entries in some order |
| any other value | itself |

Nobody goes through the tables in an array, so they stay as they are. Main statements:
`Entries.Rearranged.exists_left` and `exists_right`, which say that each key has the same values in
both, rearranged.
-/

import DiffusionMesh.Toml.Value

namespace DiffusionMesh
namespace Toml

mutual

/-- Two values that differ at most in the order of the entries of their tables. -/
inductive Value.Rearranged : Value → Value → Prop where
  | same (v : Value) : Value.Rearranged v v
  | table {xs ys : Entries} : Entries.Rearranged xs ys → Value.Rearranged (.table xs) (.table ys)

/-- The entries of two tables that differ at most in their order, and in the order of the entries of
tables among them. -/
inductive Entries.Rearranged : Entries → Entries → Prop where
  | nil : Entries.Rearranged [] []
  | cons {key : String} {v w : Value} {xs ys : Entries} : Value.Rearranged v w →
      Entries.Rearranged xs ys → Entries.Rearranged ((key, v) :: xs) ((key, w) :: ys)
  | perm {xs ys zs : Entries} : Entries.Rearranged xs ys → ys.Perm zs → Entries.Rearranged xs zs

end

variable {v w : Value} {key : String} {xs ys : Entries}

/-- A value that is no table is only rearranged into itself. -/
theorem Value.Rearranged.eq (h : v.Rearranged w) (hplain : ∀ entries, v ≠ .table entries) :
    w = v := by
  cases h with
  | same => rfl
  | table => exact absurd rfl (hplain _)

namespace Entries.Rearranged

theorem refl : ∀ xs : Entries, Rearranged xs xs
  | [] => .nil
  | (_, v) :: xs => .cons (.same v) (refl xs)

/-- An entry after rearranging comes from one before. -/
theorem exists_left : ∀ {xs ys : Entries}, Rearranged xs ys → (key, w) ∈ ys →
    ∃ v, (key, v) ∈ xs ∧ v.Rearranged w
  | _, _, .nil, hmem => absurd hmem List.not_mem_nil
  | _, _, .cons hvalue hrest, hmem => by
    rcases List.mem_cons.1 hmem with hfirst | hmem
    · obtain ⟨rfl, rfl⟩ := Prod.mk.inj hfirst
      exact ⟨_, List.mem_cons_self, hvalue⟩
    · obtain ⟨v, hv, hrearranged⟩ := exists_left hrest hmem
      exact ⟨v, List.mem_cons_of_mem _ hv, hrearranged⟩
  | _, _, .perm h hperm, hmem => exists_left h (hperm.mem_iff.2 hmem)

/-- An entry before rearranging comes to one after. -/
theorem exists_right : ∀ {xs ys : Entries}, Rearranged xs ys → (key, v) ∈ xs →
    ∃ w, (key, w) ∈ ys ∧ v.Rearranged w
  | _, _, .nil, hmem => absurd hmem List.not_mem_nil
  | _, _, .cons hvalue hrest, hmem => by
    rcases List.mem_cons.1 hmem with hfirst | hmem
    · obtain ⟨rfl, rfl⟩ := Prod.mk.inj hfirst
      exact ⟨_, List.mem_cons_self, hvalue⟩
    · obtain ⟨w, hw, hrearranged⟩ := exists_right hrest hmem
      exact ⟨w, List.mem_cons_of_mem _ hw, hrearranged⟩
  | _, _, .perm h hperm, hmem => by
    obtain ⟨w, hw, hrearranged⟩ := exists_right h hmem
    exact ⟨w, hperm.mem_iff.1 hw, hrearranged⟩

theorem length_eq : ∀ {xs ys : Entries}, Rearranged xs ys → ys.length = xs.length
  | _, _, .nil => rfl
  | _, _, .cons _ hrest => congrArg (· + 1) (length_eq hrest)
  | _, _, .perm h hperm => hperm.length_eq.symm.trans (length_eq h)

/-- Some of the keys can be taken before rearranging or after. -/
theorem filter (p : String → Bool) : ∀ {xs ys : Entries}, Rearranged xs ys →
    Rearranged (xs.filter fun e => p e.1) (ys.filter fun e => p e.1)
  | _, _, .nil => .nil
  | _, _, .cons hvalue hrest => by
    rw [List.filter_cons, List.filter_cons]
    split
    · exact .cons hvalue (filter p hrest)
    · exact filter p hrest
  | _, _, .perm h hperm => .perm (filter p h) (hperm.filter _)

/-- A single entry comes up alone. -/
theorem exists_singleton (h : Rearranged [(key, v)] ys) :
    ∃ w, ys = [(key, w)] ∧ v.Rearranged w := by
  obtain ⟨entry, rfl⟩ := List.length_eq_one_iff.1 h.length_eq
  obtain ⟨u, hu, hvalue⟩ := h.exists_left (List.mem_singleton_self entry)
  obtain ⟨hkey, rfl⟩ := Prod.mk.inj (List.mem_singleton.1 hu)
  exact ⟨entry.2, by rw [← hkey], hvalue⟩

end Entries.Rearranged

/-- A table is rearranged into a table. -/
theorem Value.Rearranged.exists_right (h : (Value.table xs).Rearranged w) :
    ∃ ys, w = .table ys ∧ Entries.Rearranged xs ys := by
  cases h with
  | same => exact ⟨xs, rfl, .refl xs⟩
  | table h => exact ⟨_, rfl, h⟩

/-- Only a table is rearranged into a table. -/
theorem Value.Rearranged.exists_left (h : v.Rearranged (.table ys)) :
    ∃ xs, v = .table xs ∧ Entries.Rearranged xs ys := by
  cases h with
  | same => exact ⟨ys, rfl, .refl ys⟩
  | table h => exact ⟨_, rfl, h⟩

end Toml
end DiffusionMesh

/-
# Comparison of borders, and grids that settle

A mean rounded down is monotone in what it is taken of, as long as the sum does not wrap. Words from
-2²⁹ to 2²⁹ - 1 leave room for every sum of four (`Border.Roomy`), so on such borders a whole run is
monotone:

| border | field |
| --- | --- |
| `b ≤ b'` on each side | `field b n ≤ field b' n` |
| `0 ≤ b` on each side | `field b n ≤ field b (n + 1)`, and `0 ≤ field b n ≤ peak` |

The second row makes a grid settle. As long as a step changes it, some position rises by one unit of
the last bit at least, and none falls; so the total over the grid counts the steps from below, and
it never exceeds `L · L · peak`. Once a step changes nothing, no later one does.

Main statements: `field_le_field`, `field_le_succ`, `settled_of_le`, and for the solver
`Solver.comparison`.
-/

import DiffusionMesh.Proofs.Tile.Range
import Mathlib.Algebra.Order.BigOperators.Group.Finset
import Mathlib.Algebra.Order.Ring.Int

namespace DiffusionMesh

/-- Temperatures are ordered as their words, which are signed. -/
instance : LE Temperature := ⟨fun t t' => t.bits ≤ t'.bits⟩

namespace Temperature

variable {t t' t'' : Temperature} {around around' : Direction → Temperature}

theorem le_iff : t ≤ t' ↔ t.bits.toInt ≤ t'.bits.toInt := Int32.le_iff_toInt_le

theorem le_refl (t : Temperature) : t ≤ t := le_iff.2 (Int.le_refl _)

/-- **Where no sum wraps, a step is monotone.** The temperatures that it replaces do not matter. -/
theorem next_le_next (h : ∀ d, around d ≤ around' d) (hfits : Fits (sum around))
    (hfits' : Fits (sum around')) (old old' : Temperature) :
    next old around ≤ next old' around' := by
  have hnorth := le_iff.1 (h .north)
  have hsouth := le_iff.1 (h .south)
  have heast := le_iff.1 (h .east)
  have hwest := le_iff.1 (h .west)
  rw [le_iff, (toInt_next_iff old around).2 hfits, (toInt_next_iff old' around').2 hfits']
  unfold sum
  omega

end Temperature

open Temperature (Lies NoWrap)

namespace Border

/-- Words from -2²⁹ to 2²⁹ - 1 on each side, which leaves room for every sum of four. -/
def Roomy (b : Border) : Prop := ∀ d, Lies (-536870912) 536870911 (b.get d)

/-- The greatest word of the four sides. -/
def peak (b : Border) : Int :=
  max (max b.north.bits.toInt b.south.bits.toInt) (max b.east.bits.toInt b.west.bits.toInt)

theorem le_peak (b : Border) (d : Direction) : (b.get d).bits.toInt ≤ b.peak := by
  unfold peak
  cases d <;> simp only [Compass.get] <;> omega

/-- On a roomy border no addition of any step wraps. -/
theorem Roomy.noWrap {b : Border} (hb : b.Roomy) (L n r c : Nat) :
    NoWrap (surroundings L b n r c) :=
  field_noWrap_of_lies (by omega) (by omega) (by omega) (by omega) hb n r c

end Border

section

variable {L : Nat} {b b' : Border}

theorem ringValue_le (h : ∀ d, b.get d ≤ b'.get d) (r c : Nat) :
    Solver.ringValue L b r c ≤ Solver.ringValue L b' r c := by
  rcases ringValue_cases L r c with ⟨d, -, hside⟩ | hzero
  · rw [hside, hside]
    exact h d
  · rw [hzero, hzero]
    exact Temperature.le_refl _

/-- **Warmer sides make a warmer grid**, at every position after any number of steps. -/
theorem field_le_field (hb : b.Roomy) (hb' : b'.Roomy) (h : ∀ d, b.get d ≤ b'.get d)
    (n r c : Nat) : field L b n r c ≤ field L b' n r c := by
  induction n generalizing r c with
  | zero => exact ringValue_le h r c
  | succ n ih =>
    cases hin : Solver.inside L r c with
    | false =>
      rw [field_of_not_inside hin, field_of_not_inside hin]
      exact ringValue_le h r c
    | true =>
      rw [field_succ_of_inside hin, field_succ_of_inside hin]
      exact Temperature.next_le_next (fun d => ih _ _) (hb.noWrap L n r c).four
        (hb'.noWrap L n r c).four _ _

/-! ### Sides that are not below zero -/

/-- The field lies between zero and the warmest side. -/
theorem field_lies_peak (hb : b.Roomy) (hzero : ∀ d, .zero ≤ b.get d) (n r c : Nat) :
    Lies 0 b.peak (field L b n r c) := by
  have hsides : ∀ d, Lies 0 b.peak (b.get d) := fun d =>
    ⟨Temperature.le_iff.1 (hzero d), b.le_peak d⟩
  have hpeak : 0 ≤ b.peak := (hsides .north).1.trans (hsides .north).2
  exact field_lies (Int.le_refl 0) hpeak hsides (fun m _ r c _ => (hb.noWrap L m r c).four) r c

/-- **The grid never cools.** -/
theorem field_le_succ (hb : b.Roomy) (hzero : ∀ d, .zero ≤ b.get d) (n r c : Nat) :
    field L b n r c ≤ field L b (n + 1) r c := by
  induction n generalizing r c with
  | zero =>
    cases hin : Solver.inside L r c with
    | false =>
      rw [field_of_not_inside hin, field_of_not_inside hin]
      exact Temperature.le_refl _
    | true =>
      rw [field_zero_of_inside hin]
      exact Temperature.le_iff.2 (field_lies_peak hb hzero 1 r c).1
  | succ n ih =>
    cases hin : Solver.inside L r c with
    | false =>
      rw [field_of_not_inside hin, field_of_not_inside hin]
      exact Temperature.le_refl _
    | true =>
      rw [field_succ_of_inside hin, field_succ_of_inside hin]
      exact Temperature.next_le_next (fun d => ih _ _) (hb.noWrap L n r c).four
        (hb.noWrap L (n + 1) r c).four _ _

/-- The next step changes nothing. -/
def Settled (L : Nat) (b : Border) (n : Nat) : Prop :=
  ∀ r c, field L b (n + 1) r c = field L b n r c

/-- A step that changes nothing is followed by another. -/
theorem Settled.succ {n : Nat} (h : Settled L b n) : Settled L b (n + 1) := by
  intro r c
  have hsame : surroundings L b (n + 1) r c = surroundings L b n r c := funext fun d => h _ _
  cases hin : Solver.inside L r c with
  | false => rw [field_of_not_inside hin, field_of_not_inside hin]
  | true =>
    rw [field_succ_of_inside hin, hsame, h r c, ← field_succ_of_inside hin]
    exact h r c

/-- The sum of all words of the grid. -/
def total (L : Nat) (b : Border) (n : Nat) : Int :=
  ∑ p ∈ Finset.range L ×ˢ Finset.range L, (field L b n (p.1 + 1) (p.2 + 1)).bits.toInt

theorem total_nonneg (hb : b.Roomy) (hzero : ∀ d, .zero ≤ b.get d) (n : Nat) : 0 ≤ total L b n :=
  Finset.sum_nonneg fun _ _ => (field_lies_peak hb hzero n _ _).1

theorem total_le (hb : b.Roomy) (hzero : ∀ d, .zero ≤ b.get d) (n : Nat) :
    total L b n ≤ L * L * b.peak := by
  have hsum := Finset.sum_le_card_nsmul (Finset.range L ×ˢ Finset.range L)
    (fun p => (field L b n (p.1 + 1) (p.2 + 1)).bits.toInt) b.peak
    fun _ _ => (field_lies_peak hb hzero n _ _).2
  simpa [total] using hsum

/-- **A step that changes anything raises the total.** -/
theorem total_lt (hb : b.Roomy) (hzero : ∀ d, .zero ≤ b.get d) {n : Nat}
    (h : ¬ Settled L b n) : total L b n < total L b (n + 1) := by
  obtain ⟨r, c, hne⟩ : ∃ r c, field L b (n + 1) r c ≠ field L b n r c := by
    simpa [Settled] using h
  have hin : Solver.inside L r c = true := by
    by_contra hout
    rw [Bool.not_eq_true] at hout
    exact hne (by rw [field_of_not_inside hout, field_of_not_inside hout])
  obtain ⟨hr, hc⟩ := inside_iff.1 hin
  refine Finset.sum_lt_sum (fun p _ => Temperature.le_iff.1 (field_le_succ hb hzero n _ _))
    ⟨(r - 1, c - 1), ?_, ?_⟩
  · simp only [Finset.mem_product, Finset.mem_range]
    omega
  · rw [Nat.sub_add_cancel hr.1, Nat.sub_add_cancel hc.1]
    exact lt_of_le_of_ne (Temperature.le_iff.1 (field_le_succ hb hzero n r c))
      fun heq => hne (Temperature.eq_of_toInt_eq heq).symm

/-- Until the grid settles, its total counts the steps. -/
theorem settled_or_lt_total (hb : b.Roomy) (hzero : ∀ d, .zero ≤ b.get d) (n : Nat) :
    Settled L b n ∨ (n : Int) < total L b (n + 1) := by
  induction n with
  | zero =>
    by_cases h : Settled L b 0
    · exact .inl h
    · have hlt := total_lt hb hzero h
      have hnonneg := total_nonneg (L := L) hb hzero 0
      right
      omega
  | succ n ih =>
    by_cases h : Settled L b (n + 1)
    · exact .inl h
    · have hlt := total_lt hb hzero h
      right
      rcases ih with hsettled | hcount
      · exact absurd hsettled.succ h
      · omega

/-- **The grid settles** within as many steps as its positions can rise in all. -/
theorem settled_of_le (hb : b.Roomy) (hzero : ∀ d, .zero ≤ b.get d) {n : Nat}
    (h : L * L * b.peak ≤ n) : Settled L b n := by
  rcases settled_or_lt_total hb hzero n with hsettled | hcount
  · exact hsettled
  · have hle := total_le (L := L) hb hzero (n + 1)
    omega

end

/-! ### The solver -/

namespace Solver

/-- Two grids of one side, of which the first is nowhere warmer. -/
structure Below (s s' : Solver) : Prop where
  side : s.side = s'.side
  le : ∀ r c, r < s.side → c < s.side →
    ∃ t t', s.get? r c = some t ∧ s'.get? r c = some t' ∧ t ≤ t'

variable {L : Nat} {b b' : Border}

theorem below_run {n n' : Nat} (h : ∀ r c, field L b n r c ≤ field L b' n' r c) :
    (run n (create L b)).Below (run n' (create L b')) where
  side := (side_run L b n).trans (side_run L b' n').symm
  le r c hr hc := by
    rw [side_run] at hr hc
    exact ⟨_, _, get?_run L b n hr hc, get?_run L b' n' hr hc, h _ _⟩

/-- Solvers that hold equal fields have equal grids. -/
theorem Holds.current_eq {s s' : Solver} {n n' : Nat} (h : s.Holds L b n) (h' : s'.Holds L b' n')
    (heq : ∀ r c, field L b n r c = field L b' n' r c) : s.current = s'.current := by
  refine Array.ext (h.size_current.trans h'.size_current.symm) fun k hk hk' => ?_
  obtain ⟨r, c, hr, hc, rfl⟩ := exists_place (h.size_current ▸ hk)
  refine Option.some_inj.1 ?_
  rw [← Array.getElem?_eq_getElem hk, ← Array.getElem?_eq_getElem hk', getElem?_eq_place hk,
    getElem?_eq_place hk', h.current hr hc, h'.current hr hc, heq]

/-- **Comparison and convergence.** On borders with words from -2²⁹ to 2²⁹ - 1, warmer sides make a
grid that is nowhere colder, after any number of steps. If no side is below zero, no step cools the
grid anywhere, and after `L · L · peak` steps, or any more, a step leaves the grid as it is. -/
theorem comparison (L : Nat) {b : Border} (hb : b.Roomy) :
    (∀ b' : Border, b'.Roomy → (∀ d, b.get d ≤ b'.get d) →
      ∀ n, (run n (create L b)).Below (run n (create L b'))) ∧
    ((∀ d, .zero ≤ b.get d) →
      (∀ n, (run n (create L b)).Below (run (n + 1) (create L b))) ∧
      ∀ n : Nat, L * L * b.peak ≤ n →
        (run n (create L b)).step.current = (run n (create L b)).current) := by
  refine ⟨fun b' hb' hle n => below_run (field_le_field hb hb' hle n), fun hzero => ⟨?_, ?_⟩⟩
  · exact fun n => below_run (field_le_succ hb hzero n)
  · intro n hn
    have hholds := (holds_create L b).run n
    rw [Nat.zero_add] at hholds
    exact hholds.step.current_eq hholds (settled_of_le hb hzero hn)

/-- A border near zero and the warmest border with room: three by three positions settle within 27
steps. -/
theorem comparison_of_chilly :
    let b : Border := ⟨⟨3⟩, ⟨1⟩, ⟨0⟩, ⟨2⟩⟩
    let b' : Border := .const ⟨536870911⟩
    b.Roomy ∧ b'.Roomy ∧ (∀ d, b.get d ≤ b'.get d) ∧ (∀ d, .zero ≤ b.get d) ∧
      (run 5 (create 3 b)).Below (run 5 (create 3 b')) ∧
      (run 5 (create 3 b)).Below (run 6 (create 3 b)) ∧
      (run 27 (create 3 b)).step.current = (run 27 (create 3 b)).current := by
  intro b b'
  have hb : b.Roomy := fun d => by
    cases d <;> exact ⟨by decide, by decide⟩
  have hb' : b'.Roomy := fun d => by
    cases d <;> exact ⟨by decide, by decide⟩
  have hle : ∀ d, b.get d ≤ b'.get d := fun d => by
    cases d <;> exact Temperature.le_iff.2 (by decide)
  have hzero : ∀ d, .zero ≤ b.get d := fun d => by
    cases d <;> exact Temperature.le_iff.2 (by decide)
  obtain ⟨hbelow, hrises⟩ := comparison 3 hb
  obtain ⟨hrise, hfixed⟩ := hrises hzero
  exact ⟨hb, hb', hle, hzero, hbelow b' hb' hle 5, hrise 5, hfixed 27 (by decide)⟩

end Solver
end DiffusionMesh

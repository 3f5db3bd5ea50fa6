/-
# A heat map for a writer that becomes full

A heat map is written in many small pieces: each number, each comma and each line feed of a table is
one, and an image has a head in five pieces before all of its pixels. A piece is offered to the
writer until it has taken all of it, and the writer may take it in any portions:

| the writer | |
| --- | --- |
| has room | takes at least one byte of what is offered |
| has no room left | takes nothing, or says why not; either ends the writing |

So the pieces and the portions do not show: a program that writes some bytes in whatever pieces
leaves in the writer as many of them as there is room for, and fails exactly when that is not all
(`Emits`). Pieces one after the other write their bytes one after the other (`Emits.followedBy`,
`emits_forM`), a failure in the middle included. Main statement: `writer_prefix`.
-/

import DiffusionMesh.Proofs.Image.Formats
import DiffusionMesh.Proofs.Image.Reading

namespace DiffusionMesh

/-! ### Writers and writing -/

/-- A writer: what it has received, and how many more bytes it takes. -/
structure FiniteWriter where
  received : List UInt8
  room : Nat

/-- How a writer takes what it is offered. While it has room it takes a portion, of one byte at
least; without room it takes nothing, or fails for a reason of its own. -/
structure Manner where
  portion : FiniteWriter → (offered : Nat) → Nat
  portion_le : ∀ w offered, portion w offered ≤ min w.room offered
  portion_pos : ∀ w offered, 0 < w.room → 0 < offered → 0 < portion w offered
  refusal : Option WriteFault

/-- What ends the writing of a heat map before its end. -/
inductive Halt where
  | fault (cause : WriteFault)
  /-- A position is read out of range, which brings the program down. -/
  | outOfRange
deriving DecidableEq, Repr

/-- A program that writes. It leaves behind what it has written also when it fails. -/
abbrev Writing := EStateM Halt FiniteWriter

namespace Manner

variable (a : Manner)

/-- Offers some bytes once, and tells how many of them were taken. -/
def write (bytes : List UInt8) : Writing Nat := fun w =>
  if w.room = 0 then
    match a.refusal with
    | some cause => .error (.fault cause) w
    | none => .ok 0 w
  else
    let n := a.portion w bytes.length
    .ok n ⟨w.received ++ bytes.take n, w.room - n⟩

/-- Offers some bytes until all of them have been taken. -/
def writeAll (bytes : List UInt8) : Writing Unit :=
  if bytes = [] then pure ()
  else do
    let n ← a.write bytes
    if n = 0 then throw (.fault .incomplete)
    else writeAll (bytes.drop n)
termination_by bytes.length
decreasing_by
  have hpos := List.length_pos_of_ne_nil ‹bytes ≠ []›
  rw [List.length_drop]
  omega

/-- Writes some texts, one after the other. -/
def writeTexts (texts : List String) : Writing Unit :=
  texts.forM fun s => a.writeAll (textBytes s).toList

/-- Has the writer pass on what it has received, which holds nothing back. -/
def flush : Writing Unit := pure ()

/-- Reads a position. -/
def readPosition (m : HeatMap) (row column : Nat) : Writing UInt8 :=
  match m.get? row column with
  | some b => pure b
  | none => throw .outOfRange

/-- Writes one line of the table. -/
def writeLine (m : HeatMap) (row column : Nat) : Writing Unit := do
  let b ← readPosition m row column
  a.writeTexts [toString row, ",", toString column, ",", toString b, "\n"]

/-- Writes the table. -/
def writeTable (m : HeatMap) : Writing Unit := do
  a.writeTexts ["row,col,temp\n"]
  (List.range m.side).forM fun row => (List.range m.side).forM fun column =>
    a.writeLine m row column
  flush

/-- Writes the image. -/
def writeImage (m : HeatMap) : Writing Unit := do
  a.writeTexts ["P6\n", toString m.side, " ", toString m.side, "\n255\n"]
  a.writeAll m.pixels.toList
  flush

/-- Writes a heat map. -/
def writeMap (m : HeatMap) : ImageFormat → Writing Unit
  | .ppm => a.writeImage m
  | .csv => a.writeTable m

/-! ### As many bytes as there is room for -/

/-- How the writing of some bytes ends: with all of them in the writer, or with as many of them as
there was room for. -/
def outcome (bytes : List UInt8) (w : FiniteWriter) : EStateM.Result Halt FiniteWriter Unit :=
  if bytes.length ≤ w.room then .ok () ⟨w.received ++ bytes, w.room - bytes.length⟩
  else .error (.fault (a.refusal.getD .incomplete)) ⟨w.received ++ bytes.take w.room, 0⟩

/-- The program writes these bytes. -/
def Emits (p : Writing Unit) (bytes : List UInt8) : Prop := ∀ w, p w = a.outcome bytes w

variable {a} {xs ys bytes : List UInt8} {w : FiniteWriter} {p q : Writing Unit}

/-- Bytes that fit leave the room for those behind them. -/
theorem outcome_append_of_le (h : xs.length ≤ w.room) : a.outcome (xs ++ ys) w =
    a.outcome ys ⟨w.received ++ xs, w.room - xs.length⟩ := by
  have hfits : (xs ++ ys).length ≤ w.room ↔ ys.length ≤ w.room - xs.length := by
    rw [List.length_append]
    omega
  simp only [outcome, hfits]
  split
  · simp [Nat.sub_add_eq]
  · simp [List.take_append, List.take_of_length_le h]

/-- Bytes that do not fit leave none for those behind them. -/
theorem outcome_append_of_lt (h : w.room < xs.length) :
    a.outcome (xs ++ ys) w = a.outcome xs w := by
  have hlong : ¬ (xs ++ ys).length ≤ w.room := by
    rw [List.length_append]
    omega
  rw [outcome, outcome, if_neg hlong, if_neg (Nat.not_le.2 h),
    List.take_append_of_le_length (Nat.le_of_lt h)]

theorem emits_pure : a.Emits (pure ()) [] := by
  intro w
  simp [outcome, pure, EStateM.pure]

/-- **Programs one after the other write their bytes one after the other.** -/
theorem Emits.followedBy (hp : a.Emits p xs) (hq : a.Emits q ys) :
    a.Emits (do p; q) (xs ++ ys) := by
  intro w
  change EStateM.bind p (fun _ => q) w = _
  rw [EStateM.bind, hp w]
  by_cases hfits : xs.length ≤ w.room
  · rw [outcome_append_of_le hfits, outcome, if_pos hfits]
    exact hq _
  · rw [outcome_append_of_lt (Nat.not_le.1 hfits), outcome, if_neg hfits]

/-- A loop writes the bytes of its turns, one after the other. -/
theorem emits_forM {α : Type} {l : List α} {turn : α → Writing Unit} {bytesOf : α → List UInt8}
    (h : ∀ x ∈ l, a.Emits (turn x) (bytesOf x)) : a.Emits (l.forM turn) (l.flatMap bytesOf) := by
  induction l with
  | nil => exact emits_pure
  | cons x rest ih =>
    rw [List.forall_mem_cons] at h
    exact h.1.followedBy (ih h.2)

/-- **Whatever portions a writer takes**, it receives the bytes that it has room for. -/
theorem emits_writeAll : a.Emits (a.writeAll bytes) bytes := by
  fun_induction writeAll a bytes with
  | case1 => exact emits_pure
  | case2 bytes hbytes ih =>
    intro w
    have hpos := List.length_pos_of_ne_nil hbytes
    change EStateM.bind (a.write bytes) _ w = _
    rw [EStateM.bind, write]
    by_cases hroom : w.room = 0
    · -- the writer is full, and there are bytes left
      have hlong : ¬ bytes.length ≤ 0 := by omega
      obtain ⟨received, room⟩ := w
      obtain rfl : room = 0 := hroom
      rw [if_pos rfl, outcome, if_neg hlong, List.take_zero, List.append_nil]
      cases a.refusal <;> rfl
    · have hle := a.portion_le w bytes.length
      have hsome := a.portion_pos w bytes.length (Nat.pos_of_ne_zero hroom) hpos
      rw [if_neg hroom]
      dsimp only
      rw [if_neg (by omega), ih _ (by omega)]
      -- what was taken is written, and the rest is offered again
      have htaken : (bytes.take (a.portion w bytes.length)).length = a.portion w bytes.length := by
        rw [List.length_take]
        omega
      have happend : a.outcome (bytes.take (a.portion w bytes.length) ++
          bytes.drop (a.portion w bytes.length)) w = _ := outcome_append_of_le (by omega)
      rw [htaken, List.take_append_drop] at happend
      exact happend.symm

theorem flatMap_textBytes (texts : List String) :
    (texts.flatMap fun s => (textBytes s).toList) = (textBytes (String.join texts)).toList := by
  induction texts with
  | nil => rfl
  | cons s rest ih =>
    rw [List.flatMap_cons, ih, String.join_cons, textBytes_append, Array.toList_append]

theorem emits_writeTexts (texts : List String) :
    a.Emits (a.writeTexts texts) (textBytes (String.join texts)).toList := by
  rw [← flatMap_textBytes]
  exact emits_forM fun _ _ => emits_writeAll

/-! ### The two formats -/

variable {m : HeatMap} {row column : Nat}

/-- A line of the table is read in range and written. -/
theorem emits_writeLine (hr : row < m.side) (hc : column < m.side) :
    a.Emits (a.writeLine m row column) (textBytes (m.lineAt (row, column))).toList := by
  obtain ⟨b, hb⟩ := HeatMap.exists_get? hr hc
  have hline : m.lineAt (row, column) =
      String.join [toString row, ",", toString column, ",", toString b, "\n"] := by
    simp only [HeatMap.lineAt, hb, String.join]
    rfl
  have hwrite : a.writeLine m row column =
      a.writeTexts [toString row, ",", toString column, ",", toString b, "\n"] := by
    rw [writeLine, readPosition, hb]
    rfl
  rw [hwrite, hline]
  exact emits_writeTexts _

/-- Two nested loops over a square go through its positions row by row. -/
theorem flatMap_squares {α : Type} (L : Nat) (f : Nat × Nat → List α) :
    ((List.range L).flatMap fun r => (List.range L).flatMap fun c => f (r, c)) =
      (squares L).flatMap f := by
  simp [← Solver.flatMap_range_eq_squares, List.flatMap_assoc]

theorem emits_writeTable : a.Emits (a.writeTable m) (m.encode .csv).toList := by
  have hlines : a.Emits ((List.range m.side).forM fun row => (List.range m.side).forM fun column =>
      a.writeLine m row column)
      ((squares m.side).flatMap fun p => (textBytes (m.lineAt p)).toList) := by
    rw [← flatMap_squares]
    exact emits_forM fun row hr => emits_forM fun column hc =>
      emits_writeLine (List.mem_range.1 hr) (List.mem_range.1 hc)
  have hbytes : (m.encode .csv).toList = (textBytes (String.join ["row,col,temp\n"])).toList ++
      (((squares m.side).flatMap fun p => (textBytes (m.lineAt p)).toList) ++ []) := by
    rw [HeatMap.encode_csv, HeatMap.csv, HeatMap.csvLines, ← HeatMap.map_lineAt_squares,
      ← flatMap_textBytes, ← flatMap_textBytes, List.flatMap_cons, List.flatMap_map]
    simp
  rw [hbytes]
  exact (emits_writeTexts _).followedBy (hlines.followedBy emits_pure)

theorem emits_writeImage : a.Emits (a.writeImage m) (m.encode .ppm).toList := by
  have hbytes : (m.encode .ppm).toList = (textBytes (String.join ["P6\n", toString m.side, " ",
      toString m.side, "\n255\n"])).toList ++ (m.pixels.toList ++ []) := by
    rw [HeatMap.encode_ppm, Array.toList_append, List.append_nil]
    rfl
  rw [hbytes]
  exact (emits_writeTexts _).followedBy (emits_writeAll.followedBy emits_pure)

theorem emits_writeMap (m : HeatMap) (format : ImageFormat) :
    a.Emits (a.writeMap m format) (m.encode format).toList := by
  cases format with
  | ppm => exact emits_writeImage
  | csv => exact emits_writeTable

end Manner

/-! ### Pieces as they are -/

/-- Pieces come behind what has been received. -/
theorem foldl_pieces (pieces : List (Array UInt8)) (received : Array UInt8) :
    pieces.foldl (· ++ ·) received = received ++ pieces.foldl (· ++ ·) #[] := by
  induction pieces generalizing received with
  | nil => simp
  | cons piece rest ih =>
    rw [List.foldl_cons, List.foldl_cons, ih, ih (#[] ++ piece), Array.empty_append,
      Array.append_assoc]

/-- **The pieces do not show**: what is received are the first of all bytes, as many as there is
room for. -/
theorem writePieces_eq (pieces : List (Array UInt8)) (received : Array UInt8) (room : Nat) :
    let all := pieces.foldl (· ++ ·) #[]
    writePieces room received pieces = ⟨received ++ all.extract 0 room,
      if all.size ≤ room then .ok () else .error .incomplete⟩ := by
  intro all
  induction pieces generalizing received room with
  | nil => simp [writePieces, all]
  | cons piece rest ih =>
    have hall : all = piece ++ rest.foldl (· ++ ·) #[] := by
      simp only [all, List.foldl_cons, Array.empty_append]
      exact foldl_pieces rest piece
    rw [writePieces, hall, Array.extract_append, Array.size_append, Nat.zero_sub]
    by_cases hfits : piece.size ≤ room
    · have hsize : piece.size + (rest.foldl (· ++ ·) #[]).size ≤ room ↔
          (rest.foldl (· ++ ·) #[]).size ≤ room - piece.size := by omega
      simp only [if_pos hfits, hsize, Array.extract_eq_self_of_le hfits, ← Array.append_assoc]
      exact ih _ _
    · have hlong : ¬ piece.size + (rest.foldl (· ++ ·) #[]).size ≤ room := by omega
      have hnone : room - piece.size = 0 := by omega
      rw [if_neg hfits, if_neg hlong, hnone, Array.extract_zero, Array.append_empty]

/-- A writer receives the first bytes of a heat map, as many as it has room for. -/
theorem HeatMap.writeInto_eq_extract (m : HeatMap) (format : ImageFormat) (room : Nat) :
    m.writeInto format room = ⟨(m.encode format).extract 0 room,
      if (m.encode format).size ≤ room then .ok () else .error .incomplete⟩ := by
  rw [writeInto, writePieces_eq, Array.empty_append]
  rfl

/-- The first bytes of an array, as a list. -/
theorem toList_extract_zero (bytes : Array UInt8) (n : Nat) :
    (bytes.extract 0 n).toList = bytes.toList.take n := by
  rw [Array.toList_extract, List.extract_eq_take_drop, List.drop_zero, Nat.sub_zero]

/-- **A writer that becomes full sees the first bytes.** Whatever the heat map and the format, a
writer that takes so many bytes in all, in whatever portions, has received the first of all bytes in
the end, as many as it takes, and the writing succeeds exactly when these are all. -/
theorem HeatMap.writer_prefix (m : HeatMap) (format : ImageFormat) (room : Nat) :
    let all := m.encode format
    let taken := all.extract 0 (min room all.size)
    (m.writeInto format room).bytes = taken ∧
    (m.writeInto format room).result.mapError Failure.writing =
      (if all.size ≤ room then .ok () else .error (.writing .incomplete)) ∧
    ∀ a : Manner, (a.writeMap m format).run ⟨[], room⟩ =
      if all.size ≤ room then .ok () ⟨taken.toList, room - all.size⟩
      else .error (.fault (a.refusal.getD .incomplete)) ⟨taken.toList, 0⟩ := by
  intro all taken
  have htaken : taken = all.extract 0 room := by
    refine Array.toList_inj.1 ?_
    rw [toList_extract_zero, toList_extract_zero, ← Array.length_toList, ← List.take_eq_take_min]
  have hpieces : m.writeInto format room = ⟨taken,
      if all.size ≤ room then .ok () else .error .incomplete⟩ := by
    rw [htaken, m.writeInto_eq_extract]
  refine ⟨by rw [hpieces], ?_, fun a => ?_⟩
  · rw [hpieces]
    split <;> rfl
  · have hlist : taken.toList = all.toList.take room := by rw [htaken, toList_extract_zero]
    rw [EStateM.run, Manner.emits_writeMap m format, Manner.outcome, Array.length_toList, hlist]
    split
    · next hfits => rw [List.take_of_length_le (by simpa using hfits), List.nil_append]
    · rw [List.nil_append]

/-- A writer that takes one byte at a time and has no room for a third one. -/
example :
    let slow : Manner := ⟨fun w offered => min 1 (min w.room offered),
      fun _ _ => Nat.min_le_right _ _, by omega, some .noSpace⟩
    (slow.writeMap ⟨1, #[7], rfl⟩ .csv).run ⟨[], 2⟩ =
      .error (.fault .noSpace) ⟨"ro".toUTF8.data.toList, 0⟩ := by
  intro slow
  rw [EStateM.run, Manner.emits_writeMap]
  cbv

end DiffusionMesh

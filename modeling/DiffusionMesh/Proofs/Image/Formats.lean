/-
# What the table and the image of a heat map tell

A heat map can be told from its table, and also from its image. Both start with a head and then
have an entry per position, row by row:

| format | head | entry `k` of a map of side `n` | the side shows in |
| --- | --- | --- | --- |
| CSV | `row,col,temp` | a line of `k / n`, `k % n` and byte `k` | the number of lines |
| PPM | `P6`, the side twice, 255 | three bytes, the first of them byte `k` | the head |

The numbers are decimal, and no digit is a comma, a blank or a line feed, so a text splits at these
into its numbers and in no other way (`splitOn_record`, `splitOn_csv`, `eq_of_head_append_eq`). The
green and the blue byte stand for whole numbers between 0 and 255, so none of them wraps
(`toNat_green`, `toNat_blue`). Main statement: `formats_lossless`.
-/

import Mathlib.Data.List.Basic
import Mathlib.Data.Nat.Basic
import DiffusionMesh.Image.Format
import DiffusionMesh.Proofs.Solver.Loops

namespace DiffusionMesh

/-! ### Decimal numbers -/

/-- Decimal digits tell their number. -/
theorem eq_of_toDigits_eq {a b : Nat} (h : Nat.toDigits 10 a = Nat.toDigits 10 b) : a = b := by
  have hread := congrArg (fun digits => Nat.ofDigitChars 10 digits 0) h
  simpa using hread

theorem not_mem_toDigits {c : Char} (hc : c.isDigit = false) (n : Nat) : c ∉ Nat.toDigits 10 n := by
  intro hmem
  rw [Nat.isDigit_of_mem_toDigits (by decide) (by decide) hmem] at hc
  cases hc

/-! ### Bytes of texts -/

theorem textBytes_append (s t : String) : textBytes (s ++ t) = textBytes s ++ textBytes t := by
  simp [textBytes, String.toByteArray_append, ByteArray.data_append]

/-- The bytes of a text tell the text. -/
theorem textBytes_injective {s t : String} (h : textBytes s = textBytes t) : s = t :=
  String.toByteArray_inj.1 (ByteArray.ext h)

/-- The bytes of texts written one after the other are those of the texts joined. -/
theorem foldl_textBytes (texts : List String) (received : Array UInt8) :
    (texts.map textBytes).foldl (· ++ ·) received = received ++ textBytes (String.join texts) := by
  induction texts generalizing received with
  | nil => simp [textBytes]
  | cons s rest ih =>
    rw [List.map_cons, List.foldl_cons, ih, String.join_cons, textBytes_append, Array.append_assoc]

/-- A digit is one byte, and that lies in the range of the digits. -/
theorem utf8EncodeChar_digit {c : Char} (h : c.isDigit) :
    ∃ d : UInt8, String.utf8EncodeChar c = [d] ∧ 48 ≤ d.toNat := by
  obtain ⟨hlow, hhigh⟩ : 48 ≤ c.val ∧ c.val ≤ 57 := by simpa [Char.isDigit] using h
  have hone : c.utf8Size = 1 := Char.utf8Size_eq_one_iff.2 (UInt32.le_trans hhigh (by decide))
  refine ⟨_, String.utf8EncodeChar_eq_singleton hone, ?_⟩
  rw [UInt32.le_iff_toNat_le] at hlow hhigh
  change 48 ≤ c.val.toNat at hlow
  change c.val.toNat ≤ 57 at hhigh
  rw [UInt32.toNat_toUInt8]
  omega

/-- Decimal digits have no blank among their bytes. -/
theorem blank_not_mem_digits (n : Nat) : 32 ∉ (textBytes (toString n)).toList := by
  have hbytes : (textBytes (toString n)).toList =
      (Nat.toDigits 10 n).flatMap String.utf8EncodeChar := by
    rw [Nat.toString_eq_ofList_toDigits, textBytes, String.toUTF8, String.toByteArray_ofList,
      List.utf8Encode, List.data_toByteArray]
  rw [hbytes, List.mem_flatMap]
  rintro ⟨c, hc, hblank⟩
  obtain ⟨d, hd, hlow⟩ :=
    utf8EncodeChar_digit (Nat.isDigit_of_mem_toDigits (by decide) (by decide) hc)
  rw [hd, List.mem_singleton] at hblank
  rw [← hblank] at hlow
  exact absurd hlow (by decide)

namespace HeatMap

variable {m : HeatMap} {k : Nat} {b : UInt8}

/-! ### The table -/

/-- Lines, each ended by a line feed, are told apart by the line feeds. -/
theorem splitOn_lines {α : Type} [BEq α] [LawfulBEq α] {feed : α} {lines : List (List α)}
    (h : ∀ line ∈ lines, feed ∉ line) :
    (lines.flatMap (· ++ [feed])).splitOn feed = lines ++ [[]] := by
  induction lines with
  | nil => rfl
  | cons line rest ih =>
    rw [List.forall_mem_cons] at h
    rw [List.flatMap_cons, List.append_assoc, List.singleton_append,
      List.splitOn_append_cons_self_of_not_mem h.1, ih h.2, List.cons_append]

/-- The line of the table for a position, without its line feed. -/
def record (m : HeatMap) (k : Nat) (b : UInt8) : List Char :=
  Nat.toDigits 10 (k / m.side) ++ ',' ::
    (Nat.toDigits 10 (k % m.side) ++ ',' :: Nat.toDigits 10 b.toNat)

theorem toList_csvLine : (m.csvLine k b).toList = m.record k b ++ ['\n'] := by
  have hcomma : (toString ",").toList = [','] := rfl
  have hfeed : (toString "\n").toList = ['\n'] := rfl
  have hbyte : toString b = toString b.toNat := rfl
  simp [csvLine, record, hcomma, hfeed, hbyte]

/-- The commas tell the three numbers of a line apart. -/
theorem splitOn_record : (m.record k b).splitOn ',' =
    [Nat.toDigits 10 (k / m.side), Nat.toDigits 10 (k % m.side), Nat.toDigits 10 b.toNat] := by
  rw [record, List.splitOn_append_cons_self_of_not_mem (not_mem_toDigits rfl _),
    List.splitOn_append_cons_self_of_not_mem (not_mem_toDigits rfl _),
    List.splitOn_eq_singleton (not_mem_toDigits rfl _)]

theorem feed_not_mem_record : '\n' ∉ m.record k b := by
  simp [record, not_mem_toDigits (show Char.isDigit '\n' = false from rfl)]

/-- The lines of the table below its head, without their line feeds. -/
def records (m : HeatMap) : List (List Char) := m.bytes.toList.zipIdx.map fun (b, k) => m.record k b

theorem length_records : m.records.length = m.side * m.side := by
  rw [records, List.length_map, List.length_zipIdx, Array.length_toList, m.bytes_size]

theorem getElem?_records : m.records[k]? = m.bytes[k]?.map (m.record k) := by
  rw [records, List.getElem?_map, List.getElem?_zipIdx, Array.getElem?_toList, Option.map_map,
    Nat.zero_add]
  rfl

theorem toList_csv :
    m.csv.toList = ("row,col,temp".toList :: m.records).flatMap (· ++ ['\n']) := by
  rw [csv, String.toList_join, csvLines, records, List.flatMap_cons, List.flatMap_cons,
    List.flatMap_map, List.flatMap_map]
  simp only [toList_csvLine]
  rfl

/-- **The line feeds tell the lines of the table apart.** -/
theorem splitOn_csv : m.csv.toList.splitOn '\n' = "row,col,temp".toList :: (m.records ++ [[]]) := by
  rw [toList_csv, splitOn_lines, List.cons_append]
  refine List.forall_mem_cons.2 ⟨by decide, fun line hline => ?_⟩
  obtain ⟨-, -, rfl⟩ := List.mem_map.1 hline
  exact feed_not_mem_record

/-- A line tells its byte. -/
theorem record_injective : Function.Injective (m.record k) := by
  intro x y h
  have hfields := congrArg (List.splitOn ',') h
  simp only [splitOn_record, List.cons.injEq, true_and, and_true] at hfields
  exact UInt8.toNat_inj.1 (eq_of_toDigits_eq hfields)

/-- Heat maps of one side with the same byte at every position are the same. -/
theorem ext_bytes {a b : HeatMap} (hside : a.side = b.side)
    (h : ∀ k : Nat, a.bytes[k]? = b.bytes[k]?) : a = b := by
  cases a
  cases b
  cases hside
  cases Array.ext_getElem? h
  rfl

/-- **The table tells the heat map.** -/
theorem eq_of_csv_eq {a b : HeatMap} (h : a.csv = b.csv) : a = b := by
  have hlines := congrArg (fun text => text.toList.splitOn '\n') h
  simp only [splitOn_csv] at hlines
  have hrecords : a.records = b.records := List.append_cancel_right (List.cons.inj hlines).2
  have hside : a.side = b.side := by
    have hlength := congrArg List.length hrecords
    rwa [length_records, length_records, Nat.mul_self_inj] at hlength
  refine ext_bytes hside fun k => ?_
  have hsame : b.record k = a.record k := by
    funext x
    rw [record, record, hside]
  have hk := congrArg (fun lines => lines[k]?) hrecords
  simp only [getElem?_records, hsame] at hk
  exact Option.map_injective record_injective hk

theorem encode_csv : m.encode .csv = textBytes m.csv := by
  rw [encode, pieces, foldl_textBytes, Array.empty_append, csv]

/-! ### The table, line by line -/

/-- The loops that write the lines of the table. A read out of range ends them. -/
def csvLines? (m : HeatMap) : Option (List String) :=
  (List.range m.side).foldlM (fun lines row => (List.range m.side).foldlM
    (fun lines column => (m.get? row column).map fun b => lines ++ [s!"{row},{column},{b}\n"])
    lines) ["row,col,temp\n"]

/-- The line of a row and a column. -/
def lineAt (m : HeatMap) (p : Nat × Nat) : String :=
  s!"{p.1},{p.2},{(m.get? p.1 p.2).getD 0}\n"

/-- The lines that the loops have written for some positions. -/
def Listed (m : HeatMap) (done : List (Nat × Nat)) (lines : List String) : Prop :=
  lines = "row,col,temp\n" :: done.map m.lineAt

theorem lineAt_place (h : m.bytes[k]? = some b) :
    m.lineAt (k / m.side, k % m.side) = m.csvLine k b := by
  rw [lineAt, get?, Nat.div_add_mod', h]
  rfl

/-- A turn of the loops reads in range. -/
theorem exists_line {lines : List String} {done : List (Nat × Nat)} {r c : Nat} (hr : r < m.side)
    (hc : c < m.side) (h : m.Listed done lines) :
    ∃ lines', ((m.get? r c).map fun b => lines ++ [s!"{r},{c},{b}\n"]) = some lines' ∧
      m.Listed (done ++ [(r, c)]) lines' := by
  have hlt : r * m.side + c < m.bytes.size := m.bytes_size ▸ Tile.index_lt hr hc
  have hget : m.get? r c = some m.bytes[r * m.side + c] := Array.getElem?_eq_getElem hlt
  rw [hget]
  refine ⟨_, rfl, ?_⟩
  rw [Listed, h, List.map_append, List.map_singleton, lineAt, hget]
  rfl

/-- The positions of a map, row by row, have the lines of the table. -/
theorem map_lineAt_squares : (squares m.side).map m.lineAt =
    m.bytes.toList.zipIdx.map fun (b, k) => m.csvLine k b := by
  refine List.ext_getElem? fun k => ?_
  have hread : m.bytes.toList[k]? = m.bytes[k]? := Array.getElem?_toList
  rw [squares, List.map_map, List.getElem?_map, List.getElem?_map, List.getElem?_zipIdx, hread,
    Option.map_map, Nat.zero_add]
  rw [← m.bytes_size]
  by_cases hk : k < m.bytes.size
  · have hget : m.bytes[k]? = some m.bytes[k] := Array.getElem?_eq_getElem hk
    rw [List.getElem?_range hk, hget, Option.map_some, Option.map_some]
    exact congrArg some (lineAt_place hget)
  · simp [Nat.not_lt.1 hk]

/-- **The loops stay in range and write the lines of the table.** -/
theorem csvLines?_eq : m.csvLines? = some m.csvLines := by
  obtain ⟨lines, hloop, hlines⟩ := Solver.exists_foldlM_squares m.Listed m.side
    (fun hr hc => exists_line hr hc) (show m.Listed [] ["row,col,temp\n"] from rfl)
  rw [csvLines?, hloop, hlines, map_lineAt_squares, csvLines]

/-! ### The image -/

/-- The head of the image of a map of a side. -/
def imageHead (side : Nat) : String := s!"P6\n{side} {side}\n255\n"

/-- The image below its head: three bytes for each position. -/
def pixels (m : HeatMap) : Array UInt8 :=
  m.bytes.flatMap fun b => let c := Color.ofHeat b; #[c.red, c.green, c.blue]

theorem encode_ppm : m.encode .ppm = textBytes (imageHead m.side) ++ m.pixels := by
  change #[] ++ textBytes (imageHead m.side) ++ m.pixels = _
  rw [Array.empty_append]

/-- Up to its first blank an image is `P6`, a line feed and the digits of the side. -/
theorem toList_head_append (n : Nat) (rest : Array UInt8) :
    (textBytes (imageHead n) ++ rest).toList =
      (textBytes "P6\n").toList ++ ((textBytes (toString n)).toList ++ 32 ::
        ((textBytes (toString n)).toList ++ ((textBytes "\n255\n").toList ++ rest.toList))) := by
  have hhead : imageHead n = "P6\n" ++ toString n ++ " " ++ toString n ++ "\n255\n" := rfl
  have hblank : (textBytes " ").toList = [32] := by decide
  simp only [hhead, textBytes_append, Array.toList_append, List.append_assoc, hblank,
    List.cons_append, List.nil_append]

/-- **The head tells the side**, and where the pixels begin. -/
theorem eq_of_head_append_eq {a b : Nat} {p q : Array UInt8}
    (h : textBytes (imageHead a) ++ p = textBytes (imageHead b) ++ q) : a = b ∧ p = q := by
  have hlists := congrArg Array.toList h
  rw [toList_head_append, toList_head_append] at hlists
  -- the digits of the side are what stands before the first blank
  have hdigits := congrArg (List.splitOn 32) (List.append_cancel_left hlists)
  rw [List.splitOn_append_cons_self_of_not_mem (blank_not_mem_digits a),
    List.splitOn_append_cons_self_of_not_mem (blank_not_mem_digits b)] at hdigits
  have htext := textBytes_injective (Array.toList_inj.1 (List.cons.inj hdigits).1)
  rw [Nat.toString_eq_ofList_toDigits, Nat.toString_eq_ofList_toDigits] at htext
  obtain rfl : a = b := eq_of_toDigits_eq (String.ofList_injective htext)
  exact ⟨rfl, (Array.append_right_inj _).1 h⟩

/-- The pixels as a list, three bytes for each position. -/
theorem toList_pixels : m.pixels.toList = m.bytes.toList.flatMap fun b =>
    [(Color.ofHeat b).red, (Color.ofHeat b).green, (Color.ofHeat b).blue] := by
  rw [pixels, Array.toList_flatMap]

theorem size_pixels : m.pixels.size = 3 * (m.side * m.side) := by
  rw [← Array.length_toList, toList_pixels, List.length_flatMap]
  simp [m.bytes_size, Nat.mul_comm]

/-- The green byte does not wrap: the number it stands for lies between 0 and 255. -/
theorem toNat_green (t : UInt8) : ((Color.ofHeat t).green.toNat : Int) =
    255 - (2 * (t.toNat : Int) - 255).natAbs := by
  have hlt : t.toNat < 256 := t.toNat_lt
  have hbyte : (Color.ofHeat t).green.toNat = 255 - (2 * (t.toNat : Int) - 255).natAbs :=
    UInt8.toNat_ofNat_of_lt' (by rw [UInt8.size]; omega)
  rw [hbyte]
  omega

theorem toNat_blue (t : UInt8) : ((Color.ofHeat t).blue.toNat : Int) = 255 - (t.toNat : Int) := by
  have hlt : t.toNat < 256 := t.toNat_lt
  have hbyte : (Color.ofHeat t).blue.toNat = 255 - t.toNat :=
    UInt8.toNat_sub_of_le 255 t (UInt8.le_iff_toNat_le.2 (Nat.le_of_lt_succ hlt))
  rw [hbyte]
  omega

/-- Three bytes for each temperature stand at three times its index. -/
theorem getElem?_flatMap_color {bytes : List UInt8} {k : Nat} (h : bytes[k]? = some b) :
    let all := bytes.flatMap fun b =>
      [(Color.ofHeat b).red, (Color.ofHeat b).green, (Color.ofHeat b).blue]
    all[3 * k]? = some (Color.ofHeat b).red ∧ all[3 * k + 1]? = some (Color.ofHeat b).green ∧
      all[3 * k + 2]? = some (Color.ofHeat b).blue := by
  induction bytes generalizing k with
  | nil => cases h
  | cons first rest ih =>
    cases k with
    | zero =>
      cases h
      exact ⟨rfl, rfl, rfl⟩
    | succ k => exact ih h

theorem getElem?_pixels (h : m.bytes[k]? = some b) :
    m.pixels[3 * k]? = some (Color.ofHeat b).red ∧
    m.pixels[3 * k + 1]? = some (Color.ofHeat b).green ∧
    m.pixels[3 * k + 2]? = some (Color.ofHeat b).blue := by
  rw [← Array.getElem?_toList] at h
  simpa only [← Array.getElem?_toList, toList_pixels] using getElem?_flatMap_color h

/-- **The image tells the heat map.** -/
theorem eq_of_ppm_eq {a b : HeatMap} (h : a.encode .ppm = b.encode .ppm) : a = b := by
  rw [encode_ppm, encode_ppm] at h
  obtain ⟨hside, hpixels⟩ := eq_of_head_append_eq h
  refine ext_bytes hside fun k => ?_
  have hsize : a.bytes.size = b.bytes.size := by rw [a.bytes_size, b.bytes_size, hside]
  by_cases hk : k < a.bytes.size
  · have ha := Array.getElem?_eq_getElem hk
    have hb := Array.getElem?_eq_getElem (hsize ▸ hk)
    -- the red byte is the byte of the map
    have hred := (getElem?_pixels ha).1
    rw [hpixels, (getElem?_pixels hb).1] at hred
    rw [ha, hb]
    exact hred.symm
  · rw [Array.getElem?_eq_none (Nat.not_lt.1 hk), Array.getElem?_eq_none (hsize ▸ Nat.not_lt.1 hk)]

/-! ### Nothing is lost -/

/-- The table of a map of side `n` is its head and `n * n` lines, row by row. Each line is three
decimal numbers: the row, the column and the byte. -/
structure Tabulated (m : HeatMap) : Prop where
  bytes : m.encode .csv = textBytes m.csv
  loops : m.csvLines? = some m.csvLines
  lines : m.csv.toList.splitOn '\n' = "row,col,temp".toList :: (m.records ++ [[]])
  length : m.records.length = m.side * m.side
  numbers : ∀ {k : Nat} {b : UInt8}, m.bytes[k]? = some b →
    ∃ line, m.records[k]? = some line ∧ line.splitOn ',' =
      [Nat.toDigits 10 (k / m.side), Nat.toDigits 10 (k % m.side), Nat.toDigits 10 b.toNat]

/-- The image of a map of side `n` is its head and three bytes for each position, row by row. The
first of them is the byte of the map, and none is anything but the number it stands for. -/
structure Pictured (m : HeatMap) : Prop where
  bytes : m.encode .ppm = textBytes s!"P6\n{m.side} {m.side}\n255\n" ++ m.pixels
  size : m.pixels.size = 3 * (m.side * m.side)
  colors : ∀ {k : Nat} {b : UInt8}, m.bytes[k]? = some b → ∃ green blue,
    m.pixels[3 * k]? = some b ∧ m.pixels[3 * k + 1]? = some green ∧
    m.pixels[3 * k + 2]? = some blue ∧
    (green.toNat : Int) = 255 - (2 * (b.toNat : Int) - 255).natAbs ∧
    (blue.toNat : Int) = 255 - (b.toNat : Int)

theorem tabulated (m : HeatMap) : m.Tabulated where
  bytes := encode_csv
  loops := csvLines?_eq
  lines := splitOn_csv
  length := length_records
  numbers h := ⟨_, by rw [getElem?_records, h, Option.map_some], splitOn_record⟩

theorem pictured (m : HeatMap) : m.Pictured where
  bytes := encode_ppm
  size := size_pixels
  colors {k b} h := by
    obtain ⟨hred, hgreen, hblue⟩ := getElem?_pixels h
    exact ⟨_, _, hred, hgreen, hblue, toNat_green b, toNat_blue b⟩

/-- **The output formats lose nothing**: maps that are written alike are the same, in either format
and whatever their sides are. The table and the image of each map are as its side and its bytes
say. -/
theorem formats_lossless :
    (∀ (format : ImageFormat) (a b : HeatMap), a.encode format = b.encode format → a = b) ∧
    ∀ m : HeatMap, m.Tabulated ∧ m.Pictured := by
  refine ⟨fun format a b h => ?_, fun m => ⟨m.tabulated, m.pictured⟩⟩
  cases format with
  | csv =>
    rw [encode_csv, encode_csv] at h
    exact eq_of_csv_eq (textBytes_injective h)
  | ppm => exact eq_of_ppm_eq h

/-- Two maps of side two that differ in their last byte, and the lines of the first. -/
theorem formats_lossless_square :
    let a : HeatMap := ⟨2, #[1, 2, 3, 4], rfl⟩
    let b : HeatMap := ⟨2, #[1, 2, 3, 5], rfl⟩
    (∀ format, a.encode format ≠ b.encode format) ∧
    a.csv.toList.splitOn '\n' =
      ["row,col,temp", "0,0,1", "0,1,2", "1,0,3", "1,1,4", ""].map String.toList ∧
    a.pixels.size = 12 := by
  intro a b
  obtain ⟨htable, himage⟩ := formats_lossless.2 a
  refine ⟨fun format h => absurd (formats_lossless.1 format a b h) (by decide), ?_, himage.size⟩
  rw [htable.lines]
  decide

end HeatMap
end DiffusionMesh

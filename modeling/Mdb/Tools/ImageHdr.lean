import Mdb.Library.CString
import Mdb.Surface.Surface
import Mdb.Tools.HdrScanline

/-!
Radiance HDR files: `stbi_write_hdr_core`, `stbi_write_hdr` and `image_hdr_save_r32` of
`tools/image_hdr.c`, and `surface_save_image_hdr`.

`image_hdr_round_trip` says for which images the file is written, and that a reader of the format
recovers every pixel of it.
-/

namespace Mdb

/-! ### The writer -/

/-- A product of `int`s that are not negative, which must not overflow. -/
def intMul (a b : ℕ) : Option ℕ := if a * b < 2 ^ 31 then some (a * b) else none

/-- Characters as bytes. -/
def charBytes (s : List Char) : List ℕ := s.map Char.toNat

/-- `header`. -/
def hdrHeader : List Char :=
  "#?RADIANCE\n# Written by stb_image_write.h\nFORMAT=32-bit_rle_rgbe\n".toList

/-- The format of the `sprintf` up to its first conversion. -/
def hdrExposure : List Char := "EXPOSURE=          1.0000000000000\n\n-Y ".toList

/-- The text that `sprintf` leaves in `buffer`, which has 128 characters. -/
def hdrResolution (x y : ℕ) : Option (List Char) :=
  let text := hdrExposure ++ Nat.toDigits 10 y ++ " +X ".toList ++ Nat.toDigits 10 x ++ ['\n']
  if text.length + 1 ≤ 128 then some text else none

/-- The offset `comp * i * x` of a row. -/
def rowOffset (comp i x : ℕ) : Option ℕ := (intMul comp i).bind fun a => intMul a x

/-- The rows of an image. -/
def writeRows (x y comp : ℕ) (data : ℕ → Option ℚ) : Option (List (List ℕ)) :=
  (List.range y).mapM fun i => (rowOffset comp i x).bind fun offset =>
    writeHdrScanline x comp fun j => data (offset + j)

/-- `stbi_write_hdr_core`: what it returns and what it writes. `data` is `none` for `NULL`. -/
def stbiWriteHdrCore (x y : ℤ) (comp : ℕ) (data : Option (ℕ → Option ℚ)) :
    Option (ℤ × List ℕ) :=
  match data with
  | none => some (0, [])
  | some data =>
      if y ≤ 0 ∨ x ≤ 0 then some (0, [])
      else
        (intMul x.toNat 4).bind fun _ =>
          (hdrResolution x.toNat y.toNat).bind fun resolution =>
            (writeRows x.toNat y.toNat comp data).map fun rows =>
              (1, charBytes (hdrHeader ++ resolution) ++ rows.flatten)

/-- `stbi_write_hdr`, with the contents of the file, and none where `fopen` fails. -/
def stbiWriteHdr (fopened : Bool) (x y : ℤ) (comp : ℕ) (data : Option (ℕ → Option ℚ)) :
    Option (ℤ × Option (List ℕ)) :=
  if fopened then (stbiWriteHdrCore x y comp data).map fun (r, file) => (r, some file)
  else some (0, none)

/-- `image_hdr_save_r32`. -/
def imageHdrSaveR32 (fopened : Bool) (width height : ℕ) (f32data : Option (ℕ → Option ℚ)) :
    Option (ℤ × Option (List ℕ)) :=
  (stbiWriteHdr fopened (i32 width) (i32 height) 1 f32data).map fun (r, file) =>
    (if r = 0 then 1 else 0, file)

/-- The lines up to the first empty one. -/
def readLines : List ℕ → List ℕ → Option (List (List ℕ) × List ℕ)
  | _, [] => none
  | line, b :: bytes =>
      if b = 10 then
        if line = [] then some ([], bytes)
        else (readLines [] bytes).map fun (lines, rest) => (line :: lines, rest)
      else readLines (line ++ [b]) bytes

/-- Width and height of the line `-Y height +X width`. -/
def readResolution : List Char → Option (ℕ × ℕ)
  | '-' :: 'Y' :: ' ' :: s =>
      (scanNumeral s).bind fun (y, rest) =>
        match rest with
        | ' ' :: '+' :: 'X' :: ' ' :: s =>
            (scanNumeral s).bind fun (x, rest) =>
              if rest = [] then some (x.magnitude, y.magnitude) else none
        | _ => none
  | _ => none

/-- The scanlines of an image. -/
def readRows (width : ℕ) : ℕ → List ℕ → Option (List (List Rgbe) × List ℕ)
  | 0, bytes => some ([], bytes)
  | n + 1, bytes =>
      (readScanline width bytes).bind fun (row, bytes) =>
        (readRows width n bytes).map fun (rows, rest) => (row :: rows, rest)

/-- Width, height and pixels of a file that ends with the last pixel. -/
def readHdr (bytes : List ℕ) : Option (ℕ × ℕ × List (List Rgbe)) :=
  (readLines [] bytes).bind fun (lines, bytes) =>
    if lines.head? = some (charBytes "#?RADIANCE".toList) ∧
        charBytes "FORMAT=32-bit_rle_rgbe".toList ∈ lines then
      (readResolution ((bytes.takeWhile (· ≠ 10)).map Char.ofNat)).bind fun (width, height) =>
        (readRows width height (bytes.dropWhile (· ≠ 10)).tail).bind fun (rows, rest) =>
          if rest = [] then some (width, height, rows) else none
    else none

/-! ### The header -/

lemma readLines_header (rest : List ℕ) :
    readLines [] (charBytes (hdrHeader ++ hdrExposure) ++ rest)
      = some ([charBytes "#?RADIANCE".toList, charBytes "# Written by stb_image_write.h".toList,
          charBytes "FORMAT=32-bit_rle_rgbe".toList,
          charBytes "EXPOSURE=          1.0000000000000".toList],
        charBytes "-Y ".toList ++ rest) := rfl

/-- A number in decimal is a numeral. -/
lemma isDecimal_toDigits (n : ℕ) : IsDecimal (Nat.toDigits 10 n) :=
  ⟨Nat.toDigits_ne_nil, fun _ => Nat.isDigit_of_mem_toDigits (by norm_num) le_rfl⟩

lemma scanNumeral_toDigits (n : ℕ) {rest : List Char} (hrest : StopsAt Char.isDigit rest) :
    ∃ num, scanNumeral (Nat.toDigits 10 n ++ rest) = some (num, rest) ∧ num.magnitude = n := by
  refine ⟨(isDecimal_toDigits n).numeral, ?_, Nat.ofDigitChars_ten_toDigits⟩
  exact scanNumeral_chars_append (isDecimal_toDigits n).numeral hrest

/-- The line of the resolution, without what ends it. -/
def resolutionLine (x y : ℕ) : List Char :=
  "-Y ".toList ++ Nat.toDigits 10 y ++ " +X ".toList ++ Nat.toDigits 10 x

lemma readResolution_line (x y : ℕ) : readResolution (resolutionLine x y) = some (x, y) := by
  have hstops : StopsAt Char.isDigit (" +X ".toList ++ Nat.toDigits 10 x) := by
    rintro c ⟨⟩
    rfl
  obtain ⟨ny, hny, hy⟩ := scanNumeral_toDigits y hstops
  obtain ⟨nx, hnx, hx⟩ := scanNumeral_toDigits x (stopsAt_nil Char.isDigit)
  rw [List.append_nil] at hnx
  have hline : resolutionLine x y
      = '-' :: 'Y' :: ' ' :: (Nat.toDigits 10 y ++ (" +X ".toList ++ Nat.toDigits 10 x)) := by
    rw [resolutionLine, List.append_assoc, List.append_assoc]
    rfl
  rw [hline, readResolution, hny, Option.bind_some]
  change (scanNumeral (Nat.toDigits 10 x)).bind _ = _
  rw [hnx, Option.bind_some]
  dsimp only
  rw [if_pos rfl, hx, hy]

/-- A line without line feed is read up to its end. -/
lemma takeWhile_line {line : List Char} (h : '\n' ∉ line) (rest : List ℕ) :
    (charBytes line ++ 10 :: rest).takeWhile (· ≠ 10) = charBytes line ∧
      (charBytes line ++ 10 :: rest).dropWhile (· ≠ 10) = 10 :: rest := by
  have hne : ∀ b ∈ charBytes line, decide (b ≠ 10) = true := by
    intro b hb
    obtain ⟨c, hc, rfl⟩ := List.mem_map.mp hb
    refine decide_eq_true fun heq => h ?_
    rwa [show c = '\n' from Char.toNat_inj.mp heq] at hc
  rw [List.takeWhile_append_of_pos hne, List.dropWhile_append_of_pos hne]
  simp

lemma charBytes_ofNat (s : List Char) : (charBytes s).map Char.ofNat = s := by
  rw [charBytes, List.map_map]
  exact (List.map_congr_left fun c _ => Char.ofNat_toNat c).trans (List.map_id s)

lemma newline_notMem_resolutionLine (x y : ℕ) : '\n' ∉ resolutionLine x y := by
  have hdigits : ∀ n, '\n' ∉ Nat.toDigits 10 n := fun n h =>
    absurd (Nat.isDigit_of_mem_toDigits (by norm_num) le_rfl h) (by decide)
  simp [resolutionLine, hdigits]

/-- The text of the resolution fits the buffer. -/
lemma hdrResolution_eq {x y : ℕ} (hx : x < 2 ^ 31) (hy : y < 2 ^ 31) :
    hdrResolution x y
      = some (hdrExposure ++ Nat.toDigits 10 y ++ " +X ".toList ++ Nat.toDigits 10 x ++ ['\n']) := by
  have hlen : ∀ n < 2 ^ 31, (Nat.toDigits 10 n).length ≤ 10 := fun n hn =>
    (Nat.length_toDigits_le_iff (by norm_num) (by norm_num)).mpr (by omega)
  have hlx := hlen x hx
  have hly := hlen y hy
  have hexposure : hdrExposure.length = 39 := rfl
  have hsep : " +X ".toList.length = 4 := rfl
  rw [hdrResolution, if_pos]
  simp only [List.length_append, List.length_singleton, hexposure, hsep]
  omega

/-- The text in front of the rows. -/
def hdrText (width height : ℕ) : List Char :=
  hdrHeader ++ (hdrExposure ++ Nat.toDigits 10 height ++ " +X ".toList ++ Nat.toDigits 10 width
    ++ ['\n'])

lemma hdrText_length {width height : ℕ} (hw : width < 2 ^ 31) (hh : height < 2 ^ 31) :
    (hdrText width height).length ≤ 256 := by
  have hres := hdrResolution_eq hw hh
  rw [hdrResolution] at hres
  have hlen := (Option.ite_none_right_eq_some.mp hres).1
  have hheader : hdrHeader.length ≤ 128 := by decide
  rw [hdrText, List.length_append]
  omega

lemma hdrText_bytes (width height : ℕ) : ∀ b ∈ charBytes (hdrText width height), b < 256 := by
  have hdigits : ∀ n, ∀ c ∈ Nat.toDigits 10 n, c.toNat < 256 := by
    intro n c hc
    have hdigit := Nat.isDigit_of_mem_toDigits (by norm_num) le_rfl hc
    rw [Char.isDigit_iff_toNat] at hdigit
    exact lt_of_le_of_lt hdigit.2 (by decide)
  have hconst : ∀ s : List Char, s.all (fun c => decide (c.toNat < 256)) = true →
      ∀ c ∈ s, c.toNat < 256 := fun s hs c hc => of_decide_eq_true (List.all_eq_true.mp hs c hc)
  intro b hb
  obtain ⟨c, hc, rfl⟩ := List.mem_map.mp hb
  simp only [hdrText, List.mem_append] at hc
  rcases hc with hc | (((hc | hc) | hc) | hc) | hc
  · exact hconst hdrHeader rfl c hc
  · exact hconst hdrExposure rfl c hc
  · exact hdigits height c hc
  · exact hconst " +X ".toList rfl c hc
  · exact hdigits width c hc
  · exact hconst ['\n'] rfl c hc

/-- The header and the resolution are read. -/
lemma readHdr_header {x y : ℕ} {rows : List (List Rgbe)} {bytes : List ℕ}
    (hrows : readRows x y bytes = some (rows, [])) :
    readHdr (charBytes (hdrText x y) ++ bytes) = some (x, y, rows) := by
  have hbytes : charBytes (hdrText x y) ++ bytes
      = charBytes (hdrHeader ++ hdrExposure) ++ (charBytes (Nat.toDigits 10 y ++ " +X ".toList
        ++ Nat.toDigits 10 x) ++ 10 :: bytes) := by
    simp [charBytes, hdrText]
  have hline : charBytes "-Y ".toList ++ (charBytes (Nat.toDigits 10 y ++ " +X ".toList
      ++ Nat.toDigits 10 x) ++ 10 :: bytes) = charBytes (resolutionLine x y) ++ 10 :: bytes := by
    simp [charBytes, resolutionLine]
  obtain ⟨htake, hdrop⟩ := takeWhile_line (newline_notMem_resolutionLine x y) bytes
  rw [readHdr, hbytes, readLines_header, Option.bind_some]
  dsimp only
  rw [if_pos ⟨rfl, by simp⟩, hline, htake, hdrop, charBytes_ofNat, readResolution_line,
    Option.bind_some]
  dsimp only
  rw [List.tail_cons, hrows, Option.bind_some]
  rfl

/-! ### Files -/

/-- Rows that are read one by one are read as a whole. -/
lemma readRows_flatten {width : ℕ} {code : ℕ → List ℕ} {row : ℕ → List Rgbe} {l : List ℕ}
    (h : ∀ i ∈ l, ∀ rest, readScanline width (code i ++ rest) = some (row i, rest)) :
    readRows width l.length (l.map code).flatten = some (l.map row, []) := by
  induction l with
  | nil => rfl
  | cons i l ih =>
      rw [List.length_cons, List.map_cons, List.flatten_cons, readRows, h i List.mem_cons_self,
        Option.bind_some]
      dsimp only
      rw [ih fun j hj => h j (List.mem_cons_of_mem i hj), Option.map_some, List.map_cons]

/-- The pixels of a scanline of one channel. -/
lemma scanlinePixels_gray {width : ℕ} {scanline : ℕ → Option ℚ} {v : ℕ → ℚ}
    (hw : width < 2 ^ 31) (h : ∀ x < width, scanline x = some (v x)) :
    scanlinePixels width 1 scanline = some ((List.range width).map fun x => grayRgbe (v x)) := by
  refine mapM_eq_some_map fun x hx => ?_
  have hlt : x < width := List.mem_range.mp hx
  rw [scanlineLinear, if_neg (by norm_num), scanlineAt, if_pos (by omega), mul_one, add_zero,
    h x hlt, Option.map_some, Option.bind_some]
  exact (linearToRgbe_gray (v x)).1

/-- The image of a buffer of one channel. -/
def grayRows (width height : ℕ) (v : ℕ → ℚ) : List (List Rgbe) :=
  (List.range height).map fun y => (List.range width).map fun x => grayRgbe (v (y * width + x))

section File

variable {width height : ℕ} {data : ℕ → Option ℚ} {v : ℕ → ℚ}

/-- What is left of the writer for a size it takes: its rows. -/
lemma imageHdrSaveR32_eq (hw : 1 ≤ width) (hw' : width * 4 < 2 ^ 31) (hh : 1 ≤ height)
    (hh' : height < 2 ^ 31) :
    imageHdrSaveR32 true width height (some data) = (writeRows width height 1 data).map
      fun rows => (0, some (charBytes (hdrText width height) ++ rows.flatten)) := by
  have hx : i32 width = width := i32_of_lt (by omega) (by omega)
  have hy : i32 height = height := i32_of_lt (by omega) (by omega)
  rw [imageHdrSaveR32, stbiWriteHdr, if_pos rfl, stbiWriteHdrCore, hx, hy]
  dsimp only
  rw [if_neg (by omega), Int.toNat_natCast, Int.toNat_natCast, intMul, if_pos hw', Option.bind_some,
    hdrResolution_eq (by omega) hh', Option.bind_some, Option.map_map, Option.map_map]
  rfl

lemma rowOffset_eq (hwidth : 1 ≤ width) {i : ℕ} (hi : i * width < 2 ^ 31) :
    rowOffset 1 i width = some (i * width) := by
  have hle : i * 1 ≤ i * width := Nat.mul_le_mul_left i hwidth
  rw [rowOffset, intMul, if_pos (by omega), Option.bind_some, one_mul, intMul, if_pos hi]

/-- The rows of an image whose last one has an offset. -/
lemma writeRows_gray (hw : 1 ≤ width) (hw' : width < 2 ^ 31) (hoff : (height - 1) * width < 2 ^ 31)
    (hdata : ∀ i < width * height, data i = some (v i)) :
    ∃ code : ℕ → List ℕ, writeRows width height 1 data = some ((List.range height).map code) ∧
      ∀ i < height, (∀ rest, readScanline width (code i ++ rest)
          = some ((List.range width).map fun x => grayRgbe (v (i * width + x)), rest)) ∧
        (code i).length ≤ 4 + 4 * (width + (width + 127) / 128) ∧ ∀ b ∈ code i, b < 256 := by
  have hrow : ∀ i, ∃ code, i < height → writeHdrScanline width 1 (fun j => data (i * width + j))
      = some code ∧ (∀ rest, readScanline width (code ++ rest)
          = some ((List.range width).map fun x => grayRgbe (v (i * width + x)), rest)) ∧
        code.length ≤ 4 + 4 * (width + (width + 127) / 128) ∧ ∀ b ∈ code, b < 256 := by
    intro i
    by_cases hi : i < height
    · have hpixels : scanlinePixels width 1 (fun j => data (i * width + j))
          = some ((List.range width).map fun x => grayRgbe (v (i * width + x))) := by
        refine scanlinePixels_gray hw' fun x hx => hdata _ ?_
        calc i * width + x < i * width + width := Nat.add_lt_add_left hx _
          _ = width * (i + 1) := by ring
          _ ≤ width * height := Nat.mul_le_mul_left width hi
      obtain ⟨code, hcode⟩ := readScanline_write hpixels (by simp) (fun p hp => by
        obtain ⟨x, -, rfl⟩ := List.mem_map.mp hp
        exact (linearToRgbe_gray _).2.1)
      exact ⟨code, fun _ => hcode⟩
    · exact ⟨[], fun h => absurd h hi⟩
  choose code hcode using hrow
  refine ⟨code, mapM_eq_some_map fun i hi => ?_, fun i hi => (hcode i hi).2⟩
  rw [List.mem_range] at hi
  have hle : i * width ≤ (height - 1) * width := Nat.mul_le_mul_right width (by omega)
  rw [rowOffset_eq hw (by omega), Option.bind_some]
  exact (hcode i hi).1

/-- An image whose last row has an offset is written and read back. -/
lemma exists_hdr_file (width height : ℕ) (data : ℕ → Option ℚ) (v : ℕ → ℚ) (hw : 1 ≤ width)
    (hw' : width * 4 < 2 ^ 31) (hh : 1 ≤ height) (hh' : height < 2 ^ 31)
    (hoff : (height - 1) * width < 2 ^ 31)
    (hdata : ∀ i < width * height, data i = some (v i)) :
    ∃ file, imageHdrSaveR32 true width height (some data) = some (0, some file) ∧
      readHdr file = some (width, height, grayRows width height v) ∧ (∀ b ∈ file, b < 256) ∧
      file.length ≤ 256 + height * (4 + 4 * (width + (width + 127) / 128)) := by
  obtain ⟨code, hrows, hcode⟩ := writeRows_gray hw (by omega) hoff hdata
  have hread : readRows width height ((List.range height).map code).flatten
      = some (grayRows width height v, []) := by
    have hflat := readRows_flatten (l := List.range height) fun i hi =>
      (hcode i (List.mem_range.mp hi)).1
    rwa [List.length_range] at hflat
  refine ⟨_, by rw [imageHdrSaveR32_eq hw hw' hh hh', hrows, Option.map_some],
    readHdr_header hread, fun b hb => ?_, ?_⟩
  · rcases List.mem_append.mp hb with hb | hb
    · exact hdrText_bytes width height b hb
    · obtain ⟨row, hrow, hb⟩ := List.mem_flatten.mp hb
      obtain ⟨i, hi, rfl⟩ := List.mem_map.mp hrow
      exact (hcode i (List.mem_range.mp hi)).2.2 b hb
  · have hsum := List.sum_le_card_nsmul (((List.range height).map code).map List.length)
      (4 + 4 * (width + (width + 127) / 128)) (by
        intro n hn
        obtain ⟨row, hrow, rfl⟩ := List.mem_map.mp hn
        obtain ⟨i, hi, rfl⟩ := List.mem_map.mp hrow
        exact (hcode i (List.mem_range.mp hi)).2.1)
    rw [List.length_map, List.length_map, List.length_range, smul_eq_mul] at hsum
    rw [List.length_append, List.length_flatten, charBytes, List.length_map]
    exact Nat.add_le_add (hdrText_length (by omega) hh') hsum

/-- **The file of an image** of non-empty size, with a height and a quadrupled width that are
`int`s: it is written exactly when the offset of the last row is an `int`; and a reader of the
format recovers its size and, of every pixel, what `stbiw__linear_to_rgbe` has left of it. The file
takes at most 256 bytes, and for a row four, four for a pixel and four for every 128 pixels begun.
-/
theorem image_hdr_round_trip (width height : ℕ) (data : ℕ → Option ℚ) (v : ℕ → ℚ) (hw : 1 ≤ width)
    (hw' : width * 4 < 2 ^ 31) (hh : 1 ≤ height) (hh' : height < 2 ^ 31)
    (hdata : ∀ i < width * height, data i = some (v i)) :
    ((∃ out, imageHdrSaveR32 true width height (some data) = some out)
        ↔ (height - 1) * width < 2 ^ 31) ∧
      ((height - 1) * width < 2 ^ 31 → ∃ file,
        imageHdrSaveR32 true width height (some data) = some (0, some file) ∧
        readHdr file = some (width, height, grayRows width height v) ∧ (∀ b ∈ file, b < 256) ∧
        file.length ≤ 256 + height * (4 + 4 * (width + (width + 127) / 128))) := by
  refine ⟨⟨fun ⟨out, hout⟩ => ?_, fun h => ?_⟩, fun h =>
    exists_hdr_file width height data v hw hw' hh hh' h hdata⟩
  · -- the offset of the last row is computed
    rw [imageHdrSaveR32_eq hw hw' hh hh'] at hout
    obtain ⟨rows, hrows, -⟩ := Option.map_eq_some_iff.mp hout
    obtain ⟨row, hrow⟩ := exists_of_mapM hrows (height - 1) (List.mem_range.mpr (by omega))
    obtain ⟨offset, hoffset, -⟩ := Option.bind_eq_some_iff.mp hrow
    obtain ⟨a, ha, hoffset⟩ := Option.bind_eq_some_iff.mp hoffset
    rw [intMul, one_mul] at ha
    obtain rfl := Option.some.inj (Option.ite_none_right_eq_some.mp ha).2
    exact (Option.ite_none_right_eq_some.mp hoffset).1
  · obtain ⟨file, hfile, -⟩ := exists_hdr_file width height data v hw hw' hh hh' h hdata
    exact ⟨_, hfile⟩

/-- The theorem at an image of sixteen equal pixels. -/
theorem image_hdr_round_trip_constant : ∃ file,
    imageHdrSaveR32 true 8 2 (some fun _ => some (1 / 2)) = some (0, some file) ∧
      readHdr file = some (8, 2, grayRows 8 2 fun _ => 1 / 2) := by
  obtain ⟨file, hfile, hread, -⟩ := (image_hdr_round_trip 8 2 (fun _ => some (1 / 2))
    (fun _ => 1 / 2) (by norm_num) (by norm_num) (by norm_num) (by norm_num) fun _ _ => rfl).2
      (by norm_num)
  exact ⟨file, hfile, hread⟩

end File

end Mdb

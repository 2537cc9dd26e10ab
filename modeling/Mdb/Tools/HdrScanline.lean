import Mdb.Library.RunLength
import Mdb.Tools.Rgbe

/-!
Scanlines of Radiance HDR files, `stbiw__write_hdr_scanline` of `tools/image_hdr.c`.

The bytes that a function passes to `s->func` are its result, in order. It has none where an
assertion of the source fails, a read leaves its array or a conversion is undefined.

* `rleLoop_spec`: the loop over a component writes packets that hold it, and how long they are;
* `readScanline_write`: a reader of the format recovers the pixels of a scanline of any width;
* `hdr_scanline_round_trip`: and the colours, up to a 128th of their largest channel or the least
  value that has an exponent.
-/

namespace Mdb

open RunLength

/-! ### The run-length coder -/

/-- `STBIW_UCHAR`. -/
def stbiwUchar (n : ℕ) : ℕ := n % 256

/-- `stbiw__write_run_data`. -/
def writeRunData (length databyte : ℕ) : Option (List ℕ) :=
  if length + 128 ≤ 255 then some [stbiwUchar (length + 128), databyte] else none

/-- `stbiw__write_dump_data`. -/
def writeDumpData (length : ℕ) (data : List ℕ) : Option (List ℕ) :=
  if length ≤ 128 ∧ length ≤ data.length then some (stbiwUchar length :: data.take length) else none

/-- The loop that finds the first run from `r` on. -/
def findRun (comp : List ℕ) (r : ℕ) : ℕ :=
  if h : r + 2 < comp.length then
    if comp[r] = comp[r + 1] ∧ comp[r] = comp[r + 2] then r else findRun comp (r + 1)
  else r
  termination_by comp.length - r

/-- The first run from `x` on, the end of the component if there is none. -/
def firstRun (comp : List ℕ) (x : ℕ) : ℕ :=
  if comp.length ≤ findRun comp x + 2 then comp.length else findRun comp x

/-- The loop that dumps the component up to the run. -/
def dumpLoop (comp : List ℕ) (r x : ℕ) : Option (List ℕ) :=
  if x < r then
    let len := if 128 < r - x then 128 else r - x
    (writeDumpData len (comp.drop x)).bind fun out =>
      (dumpLoop comp r (x + len)).map fun rest => out ++ rest
  else some []
  termination_by r - x
  decreasing_by split <;> omega

/-- The loop that finds the next byte after a run of `databyte`. -/
def skipRun (comp : List ℕ) (databyte r : ℕ) : ℕ :=
  if h : r < comp.length then
    if comp[r] = databyte then skipRun comp databyte (r + 1) else r
  else r
  termination_by comp.length - r

/-- The loop that outputs a run up to `r`. -/
def runLoop (comp : List ℕ) (r x : ℕ) : Option (List ℕ) :=
  if x < r then
    let len := if 127 < r - x then 127 else r - x
    comp[x]?.bind fun databyte => (writeRunData len databyte).bind fun out =>
      (runLoop comp r (x + len)).map fun rest => out ++ rest
  else some []
  termination_by r - x
  decreasing_by split <;> omega

lemma le_findRun (comp : List ℕ) (r : ℕ) : r ≤ findRun comp r := by
  fun_induction findRun comp r <;> omega

lemma le_firstRun {comp : List ℕ} {x : ℕ} (hx : x ≤ comp.length) : x ≤ firstRun comp x := by
  rw [firstRun]
  split
  · exact hx
  · exact le_findRun comp x

lemma firstRun_le (comp : List ℕ) (x : ℕ) : firstRun comp x ≤ comp.length := by
  rw [firstRun]
  split <;> omega

/-- A search that breaks off has found a run of three. -/
lemma findRun_run {comp : List ℕ} {r : ℕ} (h : findRun comp r + 2 < comp.length) :
    comp[findRun comp r]? = comp[findRun comp r + 1]? ∧
      comp[findRun comp r]? = comp[findRun comp r + 2]? := by
  fun_induction findRun comp r with
  | case1 r hr heq =>
      rw [List.getElem?_eq_getElem hr, List.getElem?_eq_getElem (by omega),
        List.getElem?_eq_getElem (by omega), Option.some.injEq, Option.some.injEq]
      exact heq
  | case2 r hr hne ih => exact ih h
  | case3 r hr => exact absurd h hr

lemma firstRun_eq_findRun {comp : List ℕ} {x : ℕ} (h : firstRun comp x + 2 < comp.length) :
    firstRun comp x = findRun comp x := by
  rw [firstRun] at h ⊢
  split_ifs at h ⊢ <;> omega

/-- A first run that is not at the end is a run of three. -/
lemma firstRun_run {comp : List ℕ} {x : ℕ} (h : firstRun comp x + 2 < comp.length) :
    comp[firstRun comp x] = comp[firstRun comp x + 1] ∧
      comp[firstRun comp x] = comp[firstRun comp x + 2] := by
  have hfind : findRun comp x + 2 < comp.length := by rwa [← firstRun_eq_findRun h]
  have hrun := findRun_run hfind
  rw [← firstRun_eq_findRun h, List.getElem?_eq_getElem h, List.getElem?_eq_getElem (by omega),
    List.getElem?_eq_getElem (by omega), Option.some.injEq, Option.some.injEq] at hrun
  exact hrun

lemma firstRun_eq_length {comp : List ℕ} {x : ℕ} (h : ¬firstRun comp x + 2 < comp.length) :
    firstRun comp x = comp.length := by
  rw [firstRun] at h ⊢
  split_ifs at h ⊢ <;> omega

lemma le_skipRun (comp : List ℕ) (databyte r : ℕ) : r ≤ skipRun comp databyte r := by
  fun_induction skipRun comp databyte r <;> omega

lemma skipRun_le {comp : List ℕ} (databyte : ℕ) {r : ℕ} (hr : r ≤ comp.length) :
    skipRun comp databyte r ≤ comp.length := by
  fun_induction skipRun comp databyte r <;> omega

/-- Everything that is skipped is the byte of the run. -/
lemma getElem?_of_lt_skipRun {comp : List ℕ} {databyte r : ℕ} :
    ∀ i, r ≤ i → i < skipRun comp databyte r → comp[i]? = some databyte := by
  fun_induction skipRun comp databyte r with
  | case1 r hr heq ih =>
      intro i hi hlt
      rcases hi.eq_or_lt with rfl | hi
      · rw [List.getElem?_eq_getElem hr, heq]
      · exact ih i hi hlt
  | case2 r hr hne => omega
  | case3 r hr => omega

/-- A run of three is skipped as a whole. -/
lemma add_three_le_skipRun {comp : List ℕ} {r : ℕ} (h : r + 2 < comp.length)
    (h₁ : comp[r] = comp[r + 1]) (h₂ : comp[r] = comp[r + 2]) :
    r + 3 ≤ skipRun comp comp[r] r := by
  rw [skipRun, dif_pos (by omega), if_pos rfl, skipRun, dif_pos (by omega), if_pos h₁.symm, skipRun,
    dif_pos h, if_pos h₂.symm]
  exact le_skipRun comp comp[r] (r + 3)

lemma lt_skipRun_firstRun {comp : List ℕ} {x : ℕ} (hx : x < comp.length)
    (h : firstRun comp x + 2 < comp.length) :
    x < skipRun comp comp[firstRun comp x] (firstRun comp x) := by
  obtain ⟨h₁, h₂⟩ := firstRun_run h
  have hskip := add_three_le_skipRun h h₁ h₂
  have hle := le_firstRun hx.le
  omega

/-- The loop over a component from `x` on. -/
def rleLoop (comp : List ℕ) (x : ℕ) : Option (List ℕ) :=
  if hx : x < comp.length then
    let r := firstRun comp x
    (dumpLoop comp r x).bind fun dumps =>
      -- the same test as the one the search for the run ends with
      if hr : r + 2 < comp.length then
        let r' := skipRun comp comp[r] r
        (runLoop comp r' r).bind fun runs => (rleLoop comp r').map fun rest => dumps ++ runs ++ rest
      else (rleLoop comp r).map fun rest => dumps ++ rest
  else some []
  termination_by comp.length - x
  decreasing_by
    · exact Nat.sub_lt_sub_left hx (lt_skipRun_firstRun hx hr)
    · exact Nat.sub_lt_sub_left hx (lt_of_lt_of_eq hx (firstRun_eq_length hr).symm)

/-! ### What the coder writes -/

/-- The packets of the format: a dump has at most 128 bytes, a run at most 127. -/
abbrev HdrPacket := Packet 128 127

lemma drop_take_add (comp : List ℕ) (x m n : ℕ) :
    ((comp.drop x).take m) ++ ((comp.drop (x + m)).take n) = (comp.drop x).take (m + n) := by
  rw [List.take_add, List.drop_drop]

/-- Dumping writes one count for every 128 bytes. -/
lemma dumpLoop_spec (comp : List ℕ) {r : ℕ} (hr : r ≤ comp.length) (x : ℕ) :
    ∃ ps : List HdrPacket, dumpLoop comp r x = some (encode ps) ∧
      expand ps = (comp.drop x).take (r - x) ∧
      (encode ps).length = (r - x) + (r - x + 127) / 128 := by
  fun_induction dumpLoop comp r x with
  | case1 x hx len ih =>
      obtain ⟨ps, hps, hexpand, hlength⟩ := ih
      have hlen : 1 ≤ len ∧ len ≤ 128 ∧ len ≤ r - x ∧ (len = 128 ∨ len = r - x) := by
        simp only [len]
        split <;> omega
      have htake : ((comp.drop x).take len).length = len := by
        rw [List.length_take, List.length_drop]
        omega
      refine ⟨.dump ((comp.drop x).take len) (by omega) (by omega) :: ps, ?_, ?_, ?_⟩
      · rw [writeDumpData, if_pos ⟨hlen.2.1, by rw [List.length_drop]; omega⟩, Option.bind_some, hps,
          Option.map_some, encode_cons, Packet.encode, htake, stbiwUchar,
          Nat.mod_eq_of_lt (by omega)]
      · rw [expand_cons, Packet.expand, hexpand, drop_take_add]
        congr 1
        omega
      · rw [encode_cons, Packet.encode, List.length_append, hlength, List.length_cons, htake]
        omega
  | case2 x hx => exact ⟨[], rfl, by rw [expand_nil, show r - x = 0 by omega, List.take_zero],
      by rw [show r - x = 0 by omega]; rfl⟩

/-- A run takes two bytes for every 127 of it. -/
lemma runLoop_spec (comp : List ℕ) {r databyte : ℕ} (x : ℕ)
    (hrun : ∀ i, x ≤ i → i < r → comp[i]? = some databyte) :
    ∃ ps : List HdrPacket, runLoop comp r x = some (encode ps) ∧
      expand ps = List.replicate (r - x) databyte ∧
      (encode ps).length = 2 * ((r - x + 126) / 127) := by
  fun_induction runLoop comp r x with
  | case1 x hx len ih =>
      have hlen : 1 ≤ len ∧ len ≤ 127 ∧ len ≤ r - x ∧ (len = 127 ∨ len = r - x) := by
        simp only [len]
        split <;> omega
      obtain ⟨ps, hps, hexpand, hlength⟩ := ih fun i hi => hrun i (by omega)
      refine ⟨.run len databyte (by omega) (by omega) :: ps, ?_, ?_, ?_⟩
      · rw [hrun x le_rfl hx, Option.bind_some, writeRunData, if_pos (by omega), Option.bind_some,
          hps, Option.map_some, encode_cons, Packet.encode, stbiwUchar, Nat.mod_eq_of_lt (by omega)]
      · rw [expand_cons, Packet.expand, hexpand, List.replicate_append_replicate]
        congr 1
        omega
      · rw [encode_cons, Packet.encode, List.length_append, hlength, List.length_cons,
          List.length_singleton]
        omega
  | case2 x hx => exact ⟨[], rfl, by rw [expand_nil, show r - x = 0 by omega]; rfl,
      by rw [show r - x = 0 by omega]; rfl⟩

/-- A list of which a stretch is known to repeat one entry. -/
lemma drop_eq_replicate_append {comp : List ℕ} {r r' b : ℕ} (hle : r ≤ r')
    (hrun : ∀ i, r ≤ i → i < r' → comp[i]? = some b) :
    comp.drop r = List.replicate (r' - r) b ++ comp.drop r' := by
  have htake : (comp.drop r).take (r' - r) = List.replicate (r' - r) b := by
    refine List.ext_getElem? fun i => ?_
    by_cases hi : i < r' - r
    · rw [List.getElem?_take_of_lt hi, List.getElem?_drop, hrun (r + i) (by omega) (by omega),
        List.getElem?_replicate_of_lt hi]
    · rw [List.getElem?_eq_none, List.getElem?_eq_none]
      · rw [List.length_replicate]
        omega
      · rw [List.length_take]
        omega
  calc comp.drop r = (comp.drop r).take (r' - r) ++ (comp.drop r).drop (r' - r) :=
        (List.take_append_drop _ _).symm
    _ = List.replicate (r' - r) b ++ comp.drop r' := by
        rw [htake, List.drop_drop, Nat.add_sub_cancel' hle]

/-- **The coder of a component**: no assertion fails, the packets hold the component, and they take
at most one byte more for every 128 of it. -/
lemma rleLoop_spec (comp : List ℕ) (x : ℕ) :
    ∃ ps : List HdrPacket, rleLoop comp x = some (encode ps) ∧ expand ps = comp.drop x ∧
      (encode ps).length ≤ (comp.length - x) + (comp.length - x + 127) / 128 := by
  fun_induction rleLoop comp x with
  | case1 x hx r ih₁ ih₂ =>
      have hxr : x ≤ r := le_firstRun hx.le
      have hrle : r ≤ comp.length := firstRun_le comp x
      obtain ⟨ds, hds, hdump, hdlen⟩ := dumpLoop_spec comp hrle x
      have hsplit : expand ds ++ comp.drop r = comp.drop x := by
        rw [hdump, ← Nat.add_sub_cancel' hxr, ← List.drop_drop, Nat.add_sub_cancel_left,
          List.take_append_drop]
      rw [hds, Option.bind_some]
      by_cases hr : r + 2 < comp.length
      · obtain ⟨qs, hqs, hexpand, hlen⟩ := ih₁ hr
        obtain ⟨h₁, h₂⟩ := firstRun_run hr
        have hskip : r + 3 ≤ skipRun comp comp[r] r := add_three_le_skipRun hr h₁ h₂
        have hle : skipRun comp comp[r] r ≤ comp.length := skipRun_le comp[r] (by omega)
        have hsame : ∀ i, r ≤ i → i < skipRun comp comp[r] r → comp[i]? = some comp[r] :=
          getElem?_of_lt_skipRun
        obtain ⟨rs, hrs, hrun, hrlen⟩ := runLoop_spec comp r hsame
        refine ⟨ds ++ rs ++ qs, ?_, ?_, ?_⟩
        · rw [dif_pos hr]
          dsimp only
          rw [hrs, Option.bind_some, hqs, Option.map_some, encode_append, encode_append]
        · rw [expand_append, expand_append, hexpand, hrun, List.append_assoc,
            ← drop_eq_replicate_append (by omega) hsame, hsplit]
        · -- the run of at least three pays for its own count
          rw [encode_append, encode_append, List.length_append, List.length_append, hdlen, hrlen]
          omega
      · obtain ⟨qs, hqs, hexpand, hlen⟩ := ih₂ hr
        have hend : r = comp.length := firstRun_eq_length hr
        refine ⟨ds ++ qs, ?_, ?_, ?_⟩
        · rw [dif_neg hr, hqs, Option.map_some, encode_append]
        · rw [expand_append, hexpand, hsplit]
        · rw [encode_append, List.length_append, hdlen]
          omega
  | case2 x hx => exact ⟨[], rfl, (List.drop_eq_nil_of_le (by omega)).symm, Nat.zero_le _⟩

/-! ### Scanlines -/

lemma mapM_eq_some_map {α β : Type*} {f : α → Option β} {g : α → β} {l : List α}
    (h : ∀ a ∈ l, f a = some (g a)) : l.mapM f = some (l.map g) := by
  induction l with
  | nil => rfl
  | cons a l ih =>
      rw [List.mapM_cons, h a List.mem_cons_self, ih fun b hb => h b (List.mem_cons_of_mem a hb)]
      rfl

lemma exists_of_mapM {α β : Type*} {f : α → Option β} {l : List α} {bs : List β}
    (h : l.mapM f = some bs) : ∀ a ∈ l, ∃ b, f a = some b := by
  induction l generalizing bs with
  | nil => exact fun a ha => absurd ha List.not_mem_nil
  | cons a l ih =>
      rw [List.mapM_cons, Option.bind_eq_bind, Option.bind_eq_some_iff] at h
      obtain ⟨b, hb, h⟩ := h
      rw [Option.bind_eq_bind, Option.bind_eq_some_iff] at h
      obtain ⟨bs', hbs, -⟩ := h
      intro a' ha'
      rcases List.mem_cons.mp ha' with rfl | ha'
      · exact ⟨b, hb⟩
      · exact ih hbs a' ha'

/-- `scanline[x * ncomp + i]`, with an index that is computed in `int`. -/
def scanlineAt (ncomp : ℕ) (scanline : ℕ → Option ℚ) (x i : ℕ) : Option ℚ :=
  if x * ncomp + i < 2 ^ 31 then scanline (x * ncomp + i) else none

/-- The `linear` of the pixel `x` of a scanline of `ncomp` channels. -/
def scanlineLinear (ncomp : ℕ) (scanline : ℕ → Option ℚ) (x : ℕ) : Option (ℚ × ℚ × ℚ) :=
  if ncomp = 4 ∨ ncomp = 3 then
    (scanlineAt ncomp scanline x 2).bind fun b => (scanlineAt ncomp scanline x 1).bind fun g =>
      (scanlineAt ncomp scanline x 0).map fun r => (r, g, b)
  else (scanlineAt ncomp scanline x 0).map fun v => (v, v, v)

/-- `rgbe` of the pixels of a scanline, in their order. -/
def scanlinePixels (width ncomp : ℕ) (scanline : ℕ → Option ℚ) : Option (List Rgbe) :=
  (List.range width).mapM fun x => (scanlineLinear ncomp scanline x).bind linearToRgbe

/-- The components of the scanline, each of which `scratch` holds in one piece. -/
def scratchComps (pixels : List Rgbe) : List (List ℕ) :=
  [pixels.map Rgbe.r, pixels.map Rgbe.g, pixels.map Rgbe.b, pixels.map Rgbe.e]

/-- `stbiw__write_hdr_scanline`. -/
def writeHdrScanline (width ncomp : ℕ) (scanline : ℕ → Option ℚ) : Option (List ℕ) :=
  (scanlinePixels width ncomp scanline).bind fun pixels =>
    if width < 8 ∨ 32768 ≤ width then some (pixels.flatMap Rgbe.bytes)
    else
      ((scratchComps pixels).mapM fun comp => rleLoop comp 0).map fun comps =>
        [2, 2, width / 256 % 256, width % 256] ++ comps.flatten

/-! ### The reader -/

/-- Pixels that stand one after the other. -/
def readFlat : ℕ → List ℕ → Option (List Rgbe × List ℕ)
  | 0, bytes => some ([], bytes)
  | n + 1, r :: g :: b :: e :: bytes =>
      if r = 1 ∧ g = 1 ∧ b = 1 then none
      else (readFlat n bytes).map fun (pixels, rest) => (⟨r, g, b, e⟩ :: pixels, rest)
  | _ + 1, _ => none

/-- The pixels with the given components. -/
def assemble : List ℕ → List ℕ → List ℕ → List ℕ → List Rgbe
  | r :: rs, g :: gs, b :: bs, e :: es => ⟨r, g, b, e⟩ :: assemble rs gs bs es
  | _, _, _, _ => []

/-- Four components. -/
def readComps (width : ℕ) (bytes : List ℕ) : Option (List Rgbe × List ℕ) :=
  (read 128 127 width bytes).bind fun (r, bytes) =>
    (read 128 127 width bytes).bind fun (g, bytes) =>
      (read 128 127 width bytes).bind fun (b, bytes) =>
        (read 128 127 width bytes).map fun (e, bytes) => (assemble r g b e, bytes)

/-- A scanline of a width that is coded by components, by the mark in front of it. -/
def readMarked (width : ℕ) : List ℕ → Option (List Rgbe × List ℕ)
  | 2 :: 2 :: hi :: lo :: rest => if hi * 256 + lo = width then readComps width rest else none
  | bytes => readFlat width bytes

/-- A scanline of the format. -/
def readScanline (width : ℕ) (bytes : List ℕ) : Option (List Rgbe × List ℕ) :=
  if width < 8 ∨ 32768 ≤ width then readFlat width bytes else readMarked width bytes

lemma assemble_comps (pixels : List Rgbe) :
    assemble (pixels.map Rgbe.r) (pixels.map Rgbe.g) (pixels.map Rgbe.b) (pixels.map Rgbe.e)
      = pixels := by
  induction pixels with
  | nil => rfl
  | cons p pixels ih => rw [List.map_cons, List.map_cons, List.map_cons, List.map_cons, assemble, ih]

lemma readFlat_bytes {pixels : List Rgbe} (h : ∀ p ∈ pixels, p.Plain) (rest : List ℕ) :
    readFlat pixels.length (pixels.flatMap Rgbe.bytes ++ rest) = some (pixels, rest) := by
  induction pixels with
  | nil => rfl
  | cons p pixels ih =>
      rw [List.length_cons, List.flatMap_cons, Rgbe.bytes, List.append_assoc]
      simp only [List.cons_append, List.nil_append]
      rw [readFlat, if_neg (h p List.mem_cons_self).unmarked,
        ih fun q hq => h q (List.mem_cons_of_mem p hq), Option.map_some]

/-- A component as the coder writes it is read back. -/
lemma exists_comp (comp : List ℕ) : ∃ code, rleLoop comp 0 = some code ∧
    (∀ rest, read 128 127 comp.length (code ++ rest) = some (comp, rest)) ∧
    code.length ≤ comp.length + (comp.length + 127) / 128 ∧
    ((∀ b ∈ comp, b < 256) → ∀ b ∈ code, b < 256) := by
  obtain ⟨ps, hps, hexpand, hlen⟩ := rleLoop_spec comp 0
  rw [List.drop_zero] at hexpand
  refine ⟨encode ps, hps, fun rest => ?_, hlen, fun hb b hmem => ?_⟩
  · have hread := read_encode ps rest
    rwa [hexpand] at hread
  · exact Nat.lt_succ_of_le (encode_le (b := 255) le_rfl
      (fun x hx => Nat.le_of_lt_succ (hb x (hexpand ▸ hx))) b hmem)

/-- **Every scanline is read back**: whatever its width, the writer fails none of its assertions,
writes bytes, besides the first four and four for a pixel at most four for every 128 pixels begun;
and the reader finds the pixels and stops behind them. -/
theorem readScanline_write {width ncomp : ℕ} {scanline : ℕ → Option ℚ} {pixels : List Rgbe}
    (hpixels : scanlinePixels width ncomp scanline = some pixels) (hlen : pixels.length = width)
    (hplain : ∀ p ∈ pixels, p.Plain) :
    ∃ code, writeHdrScanline width ncomp scanline = some code ∧
      (∀ rest, readScanline width (code ++ rest) = some (pixels, rest)) ∧
      code.length ≤ 4 + 4 * (width + (width + 127) / 128) ∧ ∀ b ∈ code, b < 256 := by
  rw [writeHdrScanline, hpixels, Option.bind_some]
  by_cases hw : width < 8 ∨ 32768 ≤ width
  · refine ⟨pixels.flatMap Rgbe.bytes, if_pos hw, fun rest => ?_, ?_, fun b hb => ?_⟩
    · rw [readScanline, if_pos hw, ← hlen]
      exact readFlat_bytes hplain rest
    · rw [List.length_flatMap]
      simp only [Rgbe.bytes, List.length_cons, List.length_nil, List.map_const', hlen,
        List.sum_replicate, smul_eq_mul]
      omega
    · obtain ⟨p, hp, hbp⟩ := List.mem_flatMap.mp hb
      exact (hplain p hp).bytes b hbp
  · obtain ⟨r, hr, hread_r, hlen_r, hbytes_r⟩ := exists_comp (pixels.map Rgbe.r)
    obtain ⟨g, hg, hread_g, hlen_g, hbytes_g⟩ := exists_comp (pixels.map Rgbe.g)
    obtain ⟨b, hb, hread_b, hlen_b, hbytes_b⟩ := exists_comp (pixels.map Rgbe.b)
    obtain ⟨e, he, hread_e, hlen_e, hbytes_e⟩ := exists_comp (pixels.map Rgbe.e)
    rw [List.length_map, hlen] at hread_r hread_g hread_b hread_e hlen_r hlen_g hlen_b hlen_e
    refine ⟨2 :: 2 :: (width / 256 % 256) :: (width % 256) :: (r ++ (g ++ (b ++ e))), ?_,
      fun rest => ?_, ?_, ?_⟩
    · rw [if_neg hw, scratchComps]
      simp [hr, hg, hb, he]
    · rw [readScanline, if_neg hw]
      simp only [List.cons_append, List.append_assoc]
      rw [readMarked, if_pos (by omega), readComps, hread_r, Option.bind_some]
      dsimp only
      rw [hread_g, Option.bind_some]
      dsimp only
      rw [hread_b, Option.bind_some]
      dsimp only
      rw [hread_e, Option.map_some, assemble_comps]
    · simp only [List.length_cons, List.length_append]
      omega
    · have hbytes : ∀ f ∈ [Rgbe.r, Rgbe.g, Rgbe.b, Rgbe.e], ∀ b ∈ pixels.map f, b < 256 := by
        intro f hf b hb
        obtain ⟨p, hp, rfl⟩ := List.mem_map.mp hb
        refine (hplain p hp).bytes (f p) ?_
        simp only [List.mem_cons, List.not_mem_nil, or_false] at hf
        rcases hf with rfl | rfl | rfl | rfl <;> simp [Rgbe.bytes]
      intro x hx
      simp only [List.mem_cons, List.mem_append] at hx
      rcases hx with rfl | rfl | rfl | rfl | hx | hx | hx | hx
      iterate 4 omega
      · exact hbytes_r (hbytes _ (by simp)) x hx
      · exact hbytes_g (hbytes _ (by simp)) x hx
      · exact hbytes_b (hbytes _ (by simp)) x hx
      · exact hbytes_e (hbytes _ (by simp)) x hx

/-- **Scanlines of colours**: for every width and number of channels, and all colours that the
scanline holds at indices that are `int`s, without negative channels and below `2 ^ 127`, the writer
fails no assertion, and a reader finds a pixel for every colour, each channel of it right up to
`channelUnit`. -/
theorem hdr_scanline_round_trip (width ncomp : ℕ) (scanline : ℕ → Option ℚ)
    (color : ℕ → ℚ × ℚ × ℚ)
    (hcolor : ∀ x < width, scanlineLinear ncomp scanline x = some (color x))
    (hpos : ∀ x < width, 0 ≤ (color x).1 ∧ 0 ≤ (color x).2.1 ∧ 0 ≤ (color x).2.2)
    (hmax : ∀ x < width, maxChannel (color x) < 2 ^ 127) :
    ∃ code pixels, writeHdrScanline width ncomp scanline = some code ∧
      code.length ≤ 4 + 4 * (width + (width + 127) / 128) ∧
      (∀ rest, readScanline width (code ++ rest) = some (pixels, rest)) ∧
      pixels.length = width ∧ ∀ x, ∀ hx : x < pixels.length, (pixels[x]).Shows (color x) := by
  have hpixel : ∀ x, ∃ p, x < width → linearToRgbe (color x) = some p ∧ p.Plain ∧
      p.Shows (color x) := by
    intro x
    by_cases hx : x < width
    · obtain ⟨hr, hg, hb⟩ := hpos x hx
      obtain ⟨p, hp⟩ := exists_rgbe hr hg hb (hmax x hx)
      exact ⟨p, fun _ => hp⟩
    · exact ⟨⟨0, 0, 0, 0⟩, fun h => absurd h hx⟩
  choose pixel hpixel using hpixel
  have hpixels : scanlinePixels width ncomp scanline = some ((List.range width).map pixel) := by
    refine mapM_eq_some_map fun x hx => ?_
    rw [hcolor x (List.mem_range.mp hx), Option.bind_some]
    exact (hpixel x (List.mem_range.mp hx)).1
  obtain ⟨code, hcode, hread, hlen, -⟩ := readScanline_write hpixels (by simp) fun p hp => by
    obtain ⟨x, hx, rfl⟩ := List.mem_map.mp hp
    exact (hpixel x (List.mem_range.mp hx)).2.1
  refine ⟨code, _, hcode, hlen, hread, by simp, fun x hx => ?_⟩
  rw [List.length_map, List.length_range] at hx
  rw [List.getElem_map, List.getElem_range]
  exact (hpixel x hx).2.2

/-- The theorem at a scanline of ten equal pixels of three channels. -/
theorem hdr_scanline_round_trip_ten : ∃ code pixels,
    writeHdrScanline 10 3 (fun i => some ((i % 3 : ℕ) : ℚ)) = some code ∧
      (∀ rest, readScanline 10 (code ++ rest) = some (pixels, rest)) ∧ pixels.length = 10 := by
  obtain ⟨code, pixels, hcode, -, hread, hlen, -⟩ := hdr_scanline_round_trip 10 3
    (fun i => some ((i % 3 : ℕ) : ℚ)) (fun _ => (0, 1, 2))
    (fun x hx => by
      have h₀ : x * 3 < 2147483648 := by omega
      have h₁ : x * 3 + 1 < 2147483648 := by omega
      have h₂ : x * 3 + 2 < 2147483648 := by omega
      simp [scanlineLinear, scanlineAt, h₀, h₁, h₂, Nat.add_mod])
    (fun x _ => by norm_num) (fun x _ => by norm_num [maxChannel])
  exact ⟨code, pixels, hcode, hread, hlen⟩

end Mdb

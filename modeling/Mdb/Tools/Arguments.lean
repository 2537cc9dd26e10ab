import Mdb.Sched.Queue

/-!
The sizes `args_parse` lets through (`tools/args_parser.c`).

`parse_opt` reads the width and the height with `parse_int` in `512 .. UINT16_MAX` and the two
sides of the block with `parse_block_size` in `8 .. UINT16_MAX`; the defaults are within these
ranges. A `FrameArgs` carries the ranges, so that the frame theorems hold for every size the
program can be started with.
-/

namespace Mdb

/-- A surface size and a block size within the ranges `args_parse` accepts. -/
structure FrameArgs where
  width : ℕ
  height : ℕ
  blockSize : BlockSize
  width_ge : 512 ≤ width
  width_le : width ≤ 65535
  height_ge : 512 ≤ height
  height_le : height ≤ 65535
  blockX_ge : 8 ≤ blockSize.x
  blockX_le : blockSize.x ≤ 65535
  blockY_ge : 8 ≤ blockSize.y
  blockY_le : blockSize.y ≤ 65535

/-- The defaults of `args_parse`. -/
def defaultArgs : FrameArgs where
  width := 1024
  height := 1024
  blockSize := ⟨32, 32⟩
  width_ge := by norm_num
  width_le := by norm_num
  height_ge := by norm_num
  height_le := by norm_num
  blockX_ge := by norm_num
  blockX_le := by norm_num
  blockY_ge := by norm_num
  blockY_le := by norm_num

instance : Inhabited FrameArgs := ⟨defaultArgs⟩

namespace FrameArgs

variable (args : FrameArgs)

/-- The pixels of a frame are counted without wrapping. -/
lemma area_lt : args.width * args.height < 2 ^ 32 :=
  calc args.width * args.height ≤ 65535 * 65535 := Nat.mul_le_mul args.width_le args.height_le
    _ < 2 ^ 32 := by norm_num

/-- The pixels of a block are counted without wrapping. -/
lemma block_area_lt : args.blockSize.x * args.blockSize.y < 2 ^ 32 :=
  calc args.blockSize.x * args.blockSize.y ≤ 65535 * 65535 :=
        Nat.mul_le_mul args.blockX_le args.blockY_le
    _ < 2 ^ 32 := by norm_num

/-- The start of a row of pixels is within 32 bits. -/
lemma row_start_lt {y : ℕ} (hy : y < args.height) : y * args.width < 2 ^ 32 := by
  have h := args.area_lt
  have hle : y * args.width ≤ args.height * args.width := Nat.mul_le_mul_right _ hy.le
  rw [Nat.mul_comm args.height] at hle
  omega

end FrameArgs

end Mdb

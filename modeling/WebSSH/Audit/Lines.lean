import Mathlib
import WebSSH.Lib.Blocks
import WebSSH.Lib.Utf8

/-!
# The lines of a log file, newest first

`_iter_log_lines_newest_first` of `audit_logger.py`. The file is read in blocks from its end; what
precedes the first line end of a block is kept back, as the next block may end in the line's front.
-/

namespace WebSSH.Audit
open Lib Lib.Python

/-- The line end `b'\n'`. -/
def lineEnd : UInt8 := 10

/-- The lines that are yielded, of the pieces in the order of the file. -/
def newestFirst (pieces : List Bytes) : List String :=
  (pieces.reverse.filter (· ≠ [])).map Utf8.decodeReplace

/-- The loop, and what follows it. -/
def iterBlocks (content : Bytes) {chunkSize : Nat} (h : 1 ≤ chunkSize) (position : Nat)
    (pending : Bytes) : List String :=
  if _hposition : position = 0 then newestFirst [pending]
  else
    let readSize := min chunkSize position
    let start := position - readSize
    let parts := ((content.drop start).take readSize ++ pending).splitOn lineEnd
    newestFirst parts.tail ++ iterBlocks content h start (parts.headD [])
termination_by position
decreasing_by omega

/-- `_iter_log_lines_newest_first` -/
def iterLogLinesNewestFirst (content : Bytes) {chunkSize : Nat} (h : 1 ≤ chunkSize) :
    List String :=
  iterBlocks content h content.length []

theorem newestFirst_append (pieces pieces' : List Bytes) :
    newestFirst (pieces ++ pieces') = newestFirst pieces' ++ newestFirst pieces := by
  unfold newestFirst
  rw [List.reverse_append, List.filter_append, List.map_append]

/-- What was not read yet, with what is kept back, is still to be split. -/
theorem iterBlocks_eq (content : Bytes) {chunkSize : Nat} (h : 1 ≤ chunkSize) (position : Nat)
    (pending : Bytes) (hpending : ∀ c ∈ pending, (c == lineEnd) = false) :
    iterBlocks content h position pending =
      newestFirst ((content.take position ++ pending).splitOn lineEnd) := by
  induction position using Nat.strongRecOn generalizing pending with
  | ind position ih =>
    rw [iterBlocks]
    split
    · rename_i hposition
      subst hposition
      rw [List.take_zero, List.nil_append, List.splitOn, List.splitOnP_eq_singleton hpending]
    · have hlt : position - min chunkSize position < position := by omega
      have hblock := Blocks.take_append_block (l := content)
        (Nat.sub_le position (min chunkSize position))
      rw [show position - (position - min chunkSize position) = min chunkSize position by omega]
        at hblock
      dsimp only [List.splitOn]
      rw [ih _ hlt _ (Blocks.of_mem_head_splitOnP _ _), ← newestFirst_append, ← hblock,
        List.append_assoc]
      exact congrArg newestFirst (Blocks.splitOnP_append _ _ _).symm

/-- For every content and every block size the lines of the file are yielded from the last on, each
decoded as a whole. -/
theorem iter_log_lines_newest_first (content : Bytes) {chunkSize : Nat} (h : 1 ≤ chunkSize) :
    iterLogLinesNewestFirst content h =
      ((content.splitOn lineEnd).reverse.filter (· ≠ [])).map Utf8.decodeReplace := by
  unfold iterLogLinesNewestFirst
  rw [iterBlocks_eq content h _ _ (fun _ hc => absurd hc List.not_mem_nil), List.append_nil, List.take_length]
  rfl

/-- A character and an empty line that stand across the blocks. -/
theorem iter_log_lines_newest_first_blocks :
    iterLogLinesNewestFirst [97, 10, 10, 195, 169, 98, 10] (by decide : 1 ≤ 2) =
      ["éb", "a"] :=
  (iter_log_lines_newest_first [97, 10, 10, 195, 169, 98, 10] (by decide : 1 ≤ 2)).trans (by decide)

end WebSSH.Audit

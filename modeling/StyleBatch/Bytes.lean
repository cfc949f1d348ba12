/-!
# Bytes

Contents of files and streams.
-/

namespace StyleBatch

abbrev Bytes := List UInt8

namespace Bytes

def lineFeed : UInt8 := 10

/-- Puts a byte in front of lines. -/
def prependToLines (b : UInt8) (lines : List Bytes) : List Bytes :=
  if b = lineFeed then [b] :: lines
  else match lines with
    | line :: more => (b :: line) :: more
    | [] => [[b]]

/-- Lines with their line feeds; the last one may lack it. -/
def lines (bytes : Bytes) : List Bytes :=
  bytes.foldr prependToLines []

/-- A line without its line feed, and the line feed if there is one. -/
def cutEnding (line : Bytes) : Bytes × Bytes :=
  if line.getLast? = some lineFeed then (line.dropLast, [lineFeed]) else (line, [])

/-- What follows a byte order mark, if there is one in front. -/
def withoutMark : Bytes → Bytes
  | 0xEF :: 0xBB :: 0xBF :: rest => rest
  | bytes => bytes

end Bytes

end StyleBatch

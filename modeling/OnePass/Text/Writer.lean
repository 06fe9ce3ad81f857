import OnePass.Text.Bytes

/-! # Buffered output

A printer hands over its text in pieces. A writer with a buffer collects them and passes them on when
the buffer is full or when it is told to. What is still in the buffer when the program stops is lost, so
what was passed on is always a beginning of what was written. -/
namespace OnePass

structure Writer where
  pieces : List Bytes := []
  passed : Nat := 0
  held : Nat := 0
  deriving DecidableEq, Repr

namespace Writer

def capacity : Nat := 8192

def flush (w : Writer) : Writer := { w with passed := w.passed + w.held, held := 0 }

/-- Write a piece. One that does not fit pushes out what is held; one as large as the buffer is not held
at all. -/
def write (w : Writer) (piece : Bytes) : Writer :=
  let size := piece.length
  let w := { w with pieces := piece :: w.pieces }
  if size ≥ capacity then
    let w := w.flush
    { w with passed := w.passed + size }
  else
    let w := if w.held + size ≤ capacity then w else w.flush
    { w with held := w.held + size }

def all (w : Writer) : Bytes := w.pieces.reverse.flatten

def passedOn (w : Writer) : Bytes := w.all.take w.passed

end Writer
end OnePass

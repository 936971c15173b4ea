/-!
Numbers and lists as bytes: a number has a fixed width and its least byte comes first; a list is
its length in eight bytes, followed by its elements.
-/

namespace FolGraph.Export.Bytes

/-- A number in a given count of bytes. -/
def littleEndian : Nat → Nat → List UInt8
  | 0, _ => []
  | width + 1, n => UInt8.ofNat n :: littleEndian width (n / 256)

def list {α : Type} (element : α → List UInt8) (as : List α) : List UInt8 :=
  littleEndian 8 as.length ++ as.flatMap element

/-- A list of numbers of four bytes each. -/
def words (ns : List Nat) : List UInt8 := list (littleEndian 4) ns

@[simp] theorem length_littleEndian (width n : Nat) : (littleEndian width n).length = width := by
  induction width generalizing n with
  | zero => rfl
  | succ width ih => simp [littleEndian, ih]

end FolGraph.Export.Bytes

import FolGraph.Export.Dot
import FolGraph.Export.Format
import FolGraph.Export.Record

/-!
The contents of exported files.
-/

namespace FolGraph.Export

/-- The bytes of a record, given as JSON and as bytes. -/
def renderRecord (encoding : Encoding) (json : Json) (bytes : List UInt8) : ByteArray :=
  match encoding with
  | .json => json.compact.toUTF8
  | .bincode => ⟨bytes.toArray⟩

/-- The contents of the file that a graph is exported to; a drawing has only one encoding. -/
def render (format : Format) (encoding : Encoding) (g : Graph) : ByteArray :=
  match format with
  | .pyg =>
    let r := PygRecord.ofGraph g
    renderRecord encoding r.toJson r.toBytes
  | .dgl =>
    let r := DglRecord.ofGraph g
    renderRecord encoding r.toJson r.toBytes
  | .dot => (Dot.text g).toUTF8

end FolGraph.Export

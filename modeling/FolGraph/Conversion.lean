import FolGraph.Export.Render
import FolGraph.Formula.Display
import FolGraph.Formula.Equivalence
import FolGraph.Graph.Decode
import FolGraph.Graph.Encode

/-!
The conversion of one formula: encode it as a graph and render the graph. On request the graph is
first decoded again and compared with the formula, up to the order of operands.
-/

namespace FolGraph

/-- Why a graph does not give back its formula. -/
inductive VerifyError where
  | undecodable (cause : DecodeError)
  | changed (given decoded : Formula)
  deriving DecidableEq, Repr

def VerifyError.message : VerifyError → String
  | .undecodable cause => "Encoded graph does not decode: " ++ cause.message
  | .changed given decoded =>
    "Round trip changed the formula: " ++ given.display ++ " became " ++ decoded.display

/-- Checks that a graph gives back a formula. -/
def verify (f : Formula) (g : Graph) (strict : Bool) : Except VerifyError Unit :=
  match g.decode strict with
  | .error cause => .error (.undecodable cause)
  | .ok decoded => if decoded.isEquivalent f then .ok () else .error (.changed f decoded)

/-- How formulas are converted. -/
structure Conversion where
  format : Export.Format
  encoding : Export.Encoding
  verifies : Bool
  /-- Whether the verification holds operators to their arity. -/
  strict : Bool
  deriving DecidableEq, Repr, Inhabited

/-- The contents of the file that a formula is converted to. -/
def Conversion.convert (c : Conversion) (f : Formula) : Except VerifyError ByteArray := do
  if c.verifies then verify f f.encode c.strict
  .ok (Export.render c.format c.encoding f.encode)

end FolGraph

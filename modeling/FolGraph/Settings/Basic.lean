import FolGraph.Conversion

/-!
The settings of a conversion run, in three sections. Every setting has a default.
-/

namespace FolGraph

structure ExportSettings where
  format : Export.Format := .pyg
  encoding : Export.Encoding := .json
  deriving DecidableEq, Repr, Inhabited

structure BatchSettings where
  /-- How many formulas may be converted at a time; zero leaves the choice to the machine. -/
  workers : Nat := 0
  /-- Whether the first failure ends the run. -/
  failFast : Bool := false
  /-- Whether each graph is decoded again and compared with its formula. -/
  verifyRoundTrip : Bool := false
  deriving DecidableEq, Repr, Inhabited

structure DecodeSettings where
  strictArity : Bool := false
  deriving DecidableEq, Repr, Inhabited

structure Settings where
  exporting : ExportSettings := {}
  batch : BatchSettings := {}
  decoding : DecodeSettings := {}
  deriving DecidableEq, Repr, Inhabited

/-- How the formulas of a run are converted. -/
def Settings.conversion (s : Settings) : Conversion :=
  { format := s.exporting.format
    encoding := s.exporting.encoding
    verifies := s.batch.verifyRoundTrip
    strict := s.decoding.strictArity }

end FolGraph

import FolGraph.Proofs.Batch.Interleaving
import FolGraph.Proofs.Encoding.Fault
import FolGraph.Proofs.Formula.Reordering

/-!
# Verified conversion

A conversion that verifies decodes the graph of its formula before rendering it. The graph decodes
to nothing but the formula that it was made of, so that the comparison always succeeds: a formula is
refused only if its graph is. Without strict arities that never happens. With them it happens
exactly if there is a fault in the formula, whatever the format, and before anything is written.
`convert_verified` puts this together.
-/

namespace FolGraph

/-- Converts a formula to a file. -/
def Conversion.run (c : Conversion) (fs : Files) (f : Formula) (path : String) :
    Files × Except FormulaError Unit :=
  match c.convert f with
  | .error e => (fs, .error (.verify e))
  | .ok contents =>
    match fs.write path contents with
    | .error e => (fs, .error (.unwritable path e))
    | .ok fs => (fs, .ok ())

/-- What a batch does with a formula that it has loaded. -/
theorem Batch.settle_convertFile {b : Batch} {fs : Files} {index : Nat} {path : String}
    {f : Formula} (load : fs.loadFormula path = .ok f) :
    settle fs (b.convertFile fs index path) = b.conversion.run fs f (b.outputPath index) := by
  simp only [convertFile, produce, Conversion.run, load, bind, Except.bind]
  cases b.conversion.convert f with
  | error e => rfl
  | ok contents =>
    dsimp only
    cases fs.write (b.outputPath index) contents <;> rfl

namespace Conversion

open Formula (sound_encode exists_spells_encode isEquivalent_iff decode_true_encode_eq_ok_iff
  decode_true_encode_eq_error_iff)

section
variable {c : Conversion} {f : Formula}

theorem convert_of_not_verifies (quiet : c.verifies = false) :
    c.convert f = .ok (Export.render c.format c.encoding f.encode) := by
  rw [convert, quiet]
  rfl

/-- To verify the graph of a formula is to decode it. -/
theorem convert_of_verifies (verifies : c.verifies = true) :
    c.convert f = match f.encode.decode c.strict with
      | .ok _ => .ok (Export.render c.format c.encoding f.encode)
      | .error cause => .error (.undecodable cause) := by
  rw [convert, verifies, verify]
  cases decoded : f.encode.decode c.strict with
  | error cause => rfl
  | ok t =>
    have given := (Graph.decode_eq_ok_iff (sound_encode f)).mpr (exists_spells_encode f)
    have plain := Graph.decode_false_of_decode (sound_encode f) decoded
    obtain rfl := Except.ok.inj (plain.symm.trans given)
    have equivalent := (isEquivalent_iff t t).mpr (.refl t)
    simp [equivalent, bind, Except.bind]

theorem convert_of_not_strict (plain : c.strict = false) :
    c.convert f = .ok (Export.render c.format c.encoding f.encode) := by
  cases verifies : c.verifies with
  | false => exact convert_of_not_verifies verifies
  | true =>
    have decoded := (Graph.decode_eq_ok_iff (sound_encode f)).mpr (exists_spells_encode f)
    rw [convert_of_verifies verifies, plain, decoded]

theorem convert_strict_eq_ok_iff (verifies : c.verifies = true) (strict : c.strict = true)
    {contents : ByteArray} : c.convert f = .ok contents ↔
      contents = Export.render c.format c.encoding f.encode ∧
        ∀ p s, f.sub? p = some s → s.KeepsArity := by
  rw [convert_of_verifies verifies, strict]
  cases decoded : f.encode.decode true with
  | ok t =>
    have keeps := (decode_true_encode_eq_ok_iff.mp decoded).2
    rw [Except.ok.injEq, eq_comm, and_iff_left keeps]
  | error cause =>
    have broken : ¬ ∀ p s, f.sub? p = some s → s.KeepsArity := by
      intro keeps
      rw [decode_true_encode_eq_ok_iff.mpr ⟨rfl, keeps⟩] at decoded
      cases decoded
    simp [broken]

theorem convert_strict_eq_error_iff (verifies : c.verifies = true) (strict : c.strict = true)
    {e : VerifyError} : c.convert f = .error e ↔
      ∃ cause, e = .undecodable cause ∧ f.FirstFault f.positions cause := by
  simp only [← decode_true_encode_eq_error_iff]
  rw [convert_of_verifies verifies, strict]
  cases f.encode.decode true with
  | ok t => simp
  | error cause => simp [eq_comm]

/-- A formula that is refused leaves the files as they are. -/
theorem run_of_convert_error {e : VerifyError} (refused : c.convert f = .error e) (fs : Files)
    (path : String) : c.run fs f path = (fs, .error (.verify e)) := by
  rw [run, refused]

end

/-- Verification changes no output and, without strict arities, refuses no formula. With them it
refuses a formula exactly if a node does not keep its arity: it reports the first such node in
pre-order, and nothing is written. -/
theorem convert_verified (format : Export.Format) (encoding : Export.Encoding) (f : Formula) :
    (∀ strict, (Conversion.mk format encoding false strict).convert f =
      .ok (Export.render format encoding f.encode)) ∧
    (Conversion.mk format encoding true false).convert f =
      .ok (Export.render format encoding f.encode) ∧
    (∀ contents, (Conversion.mk format encoding true true).convert f = .ok contents ↔
      contents = Export.render format encoding f.encode ∧
        ∀ p s, f.sub? p = some s → s.KeepsArity) ∧
    (∀ e, (Conversion.mk format encoding true true).convert f = .error e ↔
      ∃ cause, e = .undecodable cause ∧ f.FirstFault f.positions cause) ∧
    ∀ cause, f.FirstFault f.positions cause → ∀ fs path,
      (Conversion.mk format encoding true true).run fs f path =
        (fs, .error (.verify (.undecodable cause))) := by
  refine ⟨fun strict => convert_of_not_verifies rfl, convert_of_not_strict rfl,
    fun contents => convert_strict_eq_ok_iff rfl rfl, fun e => convert_strict_eq_error_iff rfl rfl,
    fun cause first => ?_⟩
  exact run_of_convert_error ((convert_strict_eq_error_iff rfl rfl).mpr ⟨cause, rfl, first⟩)

/-- The second declaration of the quantifier is compound, and two nodes after it have too few
arguments. -/
def faulty : Formula :=
  .node "&" [.node "!" [.leaf "X", .node "f" [.leaf "a", .leaf "b"], .leaf "~"],
    .node "=" [.leaf "c"]]

theorem firstFault_faulty :
    faulty.FirstFault faulty.positions (.nonTerminalNameNode ⟨3, .ofLabel "f", "f"⟩ 2) := by
  refine ⟨[[]], [0], _, rfl, ?_,
    .declaration (d := .node "f" [.leaf "a", .leaf "b"]) (i := 1) rfl ?_⟩
  · intro r hr s hs
    obtain rfl := List.mem_singleton.mp hr
    obtain rfl := Option.some.inj ((Formula.sub?_nil _).symm.trans hs)
    constructor <;> simp [faulty]
  · exact
      { quantifier := by decide
        declaration := by decide
        arg := rfl
        compound := by decide
        before := by
          intro j hj c hc
          obtain rfl : j = 0 := by omega
          obtain rfl := Option.some.inj hc
          rfl }

/-- The declaration is reported, and nothing is written. -/
theorem convert_verified_faulty :
    (Conversion.mk .pyg .json true true).run default faulty "0.json" =
      (default, .error (.verify (.undecodable
        (.nonTerminalNameNode ⟨3, .ofLabel "f", "f"⟩ 2)))) :=
  (convert_verified .pyg .json faulty).2.2.2.2 _ firstFault_faulty default "0.json"

end Conversion

end FolGraph

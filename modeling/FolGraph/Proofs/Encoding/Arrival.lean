import FolGraph.Proofs.Formula.Position
import FolGraph.Proofs.Graph.Built
import Mathlib.Data.List.Nodup

/-!
# Arrivals at the nodes of a formula

The encoder threads ids, scopes and previous arguments through one pass over a formula. Here the
place of a node is read off its position alone: `arcs_eq_flatMap` says that the arcs of a formula
are, position by position in pre-order, the arcs that arrive at that position.
-/

namespace FolGraph

/-- Declares the labels of formulas, the first of which has the id `next`. -/
def Scope.declareAll (scope : Scope) (next : Nat) : List Formula → Scope
  | [] => scope
  | f :: fs => (scope.declare f.label next).declareAll (next + f.size) fs

theorem Scope.declareAll_append (scope : Scope) (next : Nat) (fs : List Formula) (f : Formula) :
    scope.declareAll next (fs ++ [f]) =
      (scope.declareAll next fs).declare f.label (next + Formula.sizeAll fs) := by
  induction fs generalizing scope next with
  | nil => rfl
  | cons g fs ih =>
    rw [List.cons_append, declareAll, ih, Formula.sizeAll, Nat.add_assoc]
    rfl

namespace Formula

/-- The argument that the argument number `k` is chained to. -/
def previousArg (f : Formula) (id k : Nat) : Option Nat :=
  match Layout.ofLabel f.label with
  | .chained => if k = 0 then none else some (id + f.index [k - 1])
  | _ => none

/-- The declarations made before the argument number `k` is reached. -/
def scopeBefore (f : Formula) (id : Nat) (scope : Scope) (k : Nat) : Scope :=
  match Layout.ofLabel f.label with
  | .binding => scope.declareAll (id + 1) (f.args.take k)
  | _ => scope

/-- What the argument number `k` sees: a declaration sees nothing. -/
def argScope (f : Formula) (id : Nat) (scope : Scope) (k : Nat) : Scope :=
  if Layout.ofLabel f.label = .binding ∧ k + 1 < f.args.length then []
  else f.scopeBefore id scope k

/-- Where the argument number `k` of a formula stands. -/
def argPlace (f : Formula) (id : Nat) (scope : Scope) (k : Nat) : Place :=
  ⟨some id, f.previousArg id k, f.argScope id scope k⟩

/-- Where the node at a position stands. -/
def placeAt (f : Formula) (place : Place) (id : Nat) : List Nat → Place
  | [] => place
  | k :: p =>
    match f.args[k]? with
    | some a => a.placeAt (f.argPlace id place.scope k) (id + f.index [k]) p
    | none => place

/-- The label at a position. -/
def labelAt (f : Formula) (p : List Nat) : String := ((f.sub? p).map label).getD ""

/-- The arcs that enter the node at a position. -/
def arrivalsAt (f : Formula) (place : Place) (id : Nat) (p : List Nat) : List Edge :=
  (f.placeAt place id p).arrivals (id + f.index p) (f.labelAt p)

theorem labelAt_eq {f s : Formula} {p : List Nat} (h : f.sub? p = some s) :
    f.labelAt p = s.label := by
  rw [labelAt, h]
  rfl

theorem placeAt_cons {f a : Formula} {k : Nat} (ha : f.args[k]? = some a) (place : Place)
    (id : Nat) (p : List Nat) :
    f.placeAt place id (k :: p) =
      a.placeAt (f.argPlace id place.scope k) (id + f.index [k]) p := by
  rw [placeAt, ha]

theorem arrivalsAt_cons {f a : Formula} {k : Nat} (ha : f.args[k]? = some a) (place : Place)
    (id : Nat) (p : List Nat) :
    f.arrivalsAt place id (k :: p) =
      a.arrivalsAt (f.argPlace id place.scope k) (id + f.index [k]) p := by
  have label : f.labelAt (k :: p) = a.labelAt p := by
    rw [labelAt, sub?_cons_of_arg ha, labelAt]
  have index : id + f.index (k :: p) = id + f.index [k] + a.index p := by
    rw [index_cons ha, index_singleton]
    omega
  rw [arrivalsAt, arrivalsAt, placeAt_cons ha, label, index]

/-- The pass over the arguments of a node, one argument at a time. -/
theorem arcsAll_cons {f a : Formula} {k : Nat} {fs : List Formula} (h : f.args.drop k = a :: fs)
    (id : Nat) (scope : Scope) :
    arcsAll (.ofLabel f.label) id (f.scopeBefore id scope k) (f.previousArg id k)
        (id + f.index [k]) (a :: fs) =
      a.arcs (f.argPlace id scope k) (id + f.index [k]) ++
        arcsAll (.ofLabel f.label) id (f.scopeBefore id scope (k + 1)) (f.previousArg id (k + 1))
          (id + f.index [k + 1]) fs := by
  have ha : f.args[k]? = some a := by
    rw [← List.head?_drop, h, List.head?_cons]
  have length : f.args.length = k + (fs.length + 1) := by
    have := congrArg List.length h
    have bound := (List.getElem?_eq_some_iff.mp ha).1
    simp only [List.length_drop, List.length_cons] at this
    omega
  have next : id + f.index [k + 1] = id + f.index [k] + a.size := by
    rw [index_succ ha, Nat.add_assoc]
  cases layout : Layout.ofLabel f.label with
  | chained =>
    simp only [arcsAll, argPlace, argScope, scopeBefore, previousArg, layout, next,
      reduceCtorEq, false_and, if_false, Nat.add_eq_zero_iff, Nat.one_ne_zero, and_false,
      Nat.add_sub_cancel]
  | unchained =>
    simp only [arcsAll, argPlace, argScope, scopeBefore, previousArg, layout, next,
      reduceCtorEq, false_and, if_false]
  | binding =>
    have declared : scope.declareAll (id + 1) (f.args.take (k + 1)) =
        (scope.declareAll (id + 1) (f.args.take k)).declare a.label (id + f.index [k]) := by
      rw [List.take_add_one, ha, Option.toList_some, Scope.declareAll_append, index_singleton,
        ← Nat.add_assoc]
    have body : (k + 1 < f.args.length) ↔ ¬ fs.isEmpty = true := by
      rw [length, List.isEmpty_iff_length_eq_zero]
      omega
    simp only [arcsAll, argPlace, argScope, scopeBefore, previousArg, layout, next, declared,
      true_and, body, ite_not]

mutual

/-- The arcs of a formula are those that arrive at its positions, in pre-order. -/
theorem arcs_eq_flatMap : (f : Formula) → (place : Place) → (id : Nat) →
    f.arcs place id = f.positions.flatMap (f.arrivalsAt place id)
  | .node label args, place, id => by
    have rest := arcsAll_eq_flatMap (.node label args) place id 0 args rfl
    have before : (node label args).scopeBefore id place.scope 0 = place.scope := by
      simp only [scopeBefore, List.take_zero, Scope.declareAll]
      split <;> rfl
    have first : (node label args).previousArg id 0 = none := by
      simp only [previousArg, if_true]
      split <;> rfl
    rw [before, first, index_singleton, List.take_zero, sizeAll] at rest
    rw [arcs, positions, List.flatMap_cons, ← rest, arrivalsAt, placeAt, index_nil,
      labelAt_eq (sub?_nil _)]
    rfl

theorem arcsAll_eq_flatMap (f : Formula) (place : Place) (id : Nat) : (k : Nat) →
    (fs : List Formula) → f.args.drop k = fs →
    arcsAll (.ofLabel f.label) id (f.scopeBefore id place.scope k) (f.previousArg id k)
        (id + f.index [k]) fs =
      (positionsAll k fs).flatMap (f.arrivalsAt place id)
  | _, [], _ => by
    simp [arcsAll, positionsAll]
  | k, a :: fs, h => by
    have ha : f.args[k]? = some a := by
      rw [← List.head?_drop, h, List.head?_cons]
    have tail : f.args.drop (k + 1) = fs := by
      rw [← List.drop_drop, h, List.drop_one, List.tail_cons]
    have first := arcs_eq_flatMap a (f.argPlace id place.scope k) (id + f.index [k])
    have rest := arcsAll_eq_flatMap f place id (k + 1) fs tail
    rw [arcsAll_cons h, positionsAll, List.flatMap_append, List.flatMap_map, first, rest]
    simp only [arrivalsAt_cons ha]

end

/-- Where an argument stands is decided by the node above it. -/
theorem placeAt_snoc {f s a : Formula} {p : List Nat} {k : Nat} (hs : f.sub? p = some s)
    (ha : s.args[k]? = some a) (place : Place) (id : Nat) :
    f.placeAt place id (p ++ [k]) =
      s.argPlace (id + f.index p) (f.placeAt place id p).scope k := by
  induction p generalizing f place id with
  | nil =>
    obtain rfl := Option.some.inj ((sub?_nil f).symm.trans hs)
    rw [List.nil_append, placeAt_cons ha, index_nil]
    rfl
  | cons i p ih =>
    obtain ⟨b, hb, hs⟩ := sub?_cons_eq_some.mp hs
    have index : id + f.index (i :: p) = id + f.index [i] + b.index p := by
      rw [index_cons hb, index_singleton]
      omega
    have below := ih hs (f.argPlace id place.scope i) (id + f.index [i])
    rw [List.cons_append, index, placeAt_cons hb, placeAt_cons hb, below]

end Formula

end FolGraph

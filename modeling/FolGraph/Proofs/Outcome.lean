import FolGraph.Graph.Basic

/-!
# Outcomes of steps that can fail

A chain of steps succeeds exactly if each of them does (`bind_eq_ok`).

Elements are taken from lists by position, lengths are subtracted and arcs are added between nodes.
In a checked computation each such step fails with a fault of its own where it asks for too much.
A computation is free of faults if it is equal to a `safe` one, which only refuses.
-/

namespace FolGraph

theorem bind_eq_ok {ε α β : Type} {x : Except ε α} {k : α → Except ε β} {b : β} :
    (x >>= k) = .ok b ↔ ∃ a, x = .ok a ∧ k a = .ok b := by
  cases x <;> simp [bind, Except.bind]

/-! ## Faults -/

/-- What goes wrong in a step that takes its arguments for granted. -/
inductive Fault where
  /-- Nothing stands at a position of a list. -/
  | missing (position length : Nat)
  /-- A number is subtracted from a smaller one. -/
  | underflow (minuend subtrahend : Nat)
  /-- A walk would pass more positions than there are. -/
  | overlong (count : Nat)
  /-- An arc is added that does not run between two nodes. -/
  | unknownEnd (arc : Graph.UnknownEnd)
  deriving DecidableEq, Repr

/-- Why a checked computation ends early. -/
inductive Stop (ε : Type) where
  | fault (f : Fault)
  /-- The computation turns down what it was given. -/
  | refusal (cause : ε)
  deriving DecidableEq, Repr

abbrev Checked (ε α : Type) := Except (Stop ε) α

namespace Checked

variable {ε α β : Type}

def refuse (cause : ε) : Checked ε α := .error (.refusal cause)

/-- A computation without faults. -/
def safe : Except ε α → Checked ε α
  | .ok a => .ok a
  | .error cause => refuse cause

/-- The element at a position. -/
def fetch (xs : List α) (i : Nat) : Checked ε α :=
  match xs[i]? with
  | some x => .ok x
  | none => .error (.fault (.missing i xs.length))

/-- Replaces the element at a position. -/
def store (xs : List α) (i : Nat) (x : α) : Checked ε (List α) :=
  if i < xs.length then .ok (xs.set i x) else .error (.fault (.missing i xs.length))

def minus (m n : Nat) : Checked ε Nat :=
  if n ≤ m then .ok (m - n) else .error (.fault (.underflow m n))

/-- The addition of an arc, which must run between two nodes. -/
def addEdge (g : Graph) (e : Edge) : Checked ε Graph :=
  match g.addEdge e with
  | .ok g' => .ok g'
  | .error u => .error (.fault (.unknownEnd u))

@[simp] theorem safe_ok (a : α) : (safe (.ok a) : Checked ε α) = .ok a := rfl

@[simp] theorem safe_error (cause : ε) : (safe (.error cause) : Checked ε α) = refuse cause := rfl

theorem safe_bind (x : Except ε α) (k : α → Except ε β) :
    safe (x >>= k) = safe x >>= fun a => safe (k a) := by
  cases x <;> rfl

theorem safe_eq_ok_iff {x : Except ε α} {a : α} : safe x = .ok a ↔ x = .ok a := by
  cases x <;> simp [refuse]

theorem safe_ne_fault {x : Except ε α} {f : Fault} : safe x ≠ .error (.fault f) := by
  cases x <;> simp [refuse]

theorem fetch_of_getElem? {xs : List α} {i : Nat} {x : α} (found : xs[i]? = some x) :
    (fetch xs i : Checked ε α) = .ok x := by
  rw [fetch, found]

theorem store_of_lt {xs : List α} {i : Nat} (inside : i < xs.length) (x : α) :
    (store xs i x : Checked ε (List α)) = .ok (xs.set i x) := if_pos inside

theorem minus_of_le {m n : Nat} (enough : n ≤ m) : (minus m n : Checked ε Nat) = .ok (m - n) :=
  if_pos enough

theorem addEdge_of_hasEnds {g : Graph} {e : Edge} (inside : g.hasEnds e = true) :
    (addEdge g e : Checked ε Graph) = .ok (g.link e) := by
  rw [addEdge, Graph.addEdge_eq_ok_iff.mpr ⟨inside, rfl⟩]

/-- Elements can be taken from positions that are all inside a list. -/
theorem mapM_fetch {xs : List α} {is : List Nat} (inside : ∀ i ∈ is, i < xs.length) :
    (is.mapM (fetch xs) : Checked ε (List α)) = .ok (is.filterMap (xs[·]?)) := by
  induction is with
  | nil => rfl
  | cons i is ih =>
    obtain ⟨here, rest⟩ := List.forall_mem_cons.mp inside
    have found := List.getElem?_eq_getElem here
    rw [List.mapM_cons, fetch_of_getElem? found, ih rest, List.filterMap_cons, found]
    rfl

end Checked

end FolGraph

import VariadicGenerics.Dialogue
import VariadicGenerics.Occurrence

/-!
# Type variables in a type, by number

The variables of a type are collected from its number. The collector enters every number once, so
that it comes to an end whatever the replies are: there are only so many numbers.

Parts come before whatever stands behind them, which gives the order of first occurrence. The
numbers that are still to be entered are a list of their own, so that the recursion is one of a
single function that counts down the numbers not visited.
-/

namespace VariadicGenerics

namespace Numbered

open Dialogue

/-- The numbers of the direct parts of a type, in reading order. -/
def children (id : TypeId) : Dialogue (List TypeId) := do
  match ← lookup id with
  | some (.app _ parts) | some (.union parts) => list parts
  | some (.unboundedTuple part) | some (.unpack part) => return [part]
  | some (.callable params returns) => return (← list params) ++ [returns]
  | _ => return []

/-- How many numbers are not among those visited. -/
def unvisited (visited : List TypeId) : Nat :=
  ((List.range UInt32.size).filter fun n => ⟨.ofNat n⟩ ∉ visited).length

/-- Entering a number leaves fewer of them. -/
theorem unvisited_cons_lt {visited : List TypeId} {id : TypeId} (h : id ∉ visited) :
    unvisited (id :: visited) < unvisited visited := by
  have hsplit : (List.range UInt32.size).filter (fun n => ⟨.ofNat n⟩ ∉ id :: visited) =
      ((List.range UInt32.size).filter fun n => ⟨.ofNat n⟩ ∉ visited).filter
        fun n => (⟨.ofNat n⟩ : TypeId) ≠ id := by
    rw [List.filter_filter]
    simp [List.mem_cons, not_or]
  rw [unvisited, unvisited, hsplit, List.length_filter_lt_length_iff_exists]
  refine ⟨id.index.toNat, ?_, ?_⟩
  · simpa [UInt32.toNat_lt_size] using h
  · simp

/-- Collect from the numbers that are still to be entered, the first of them before its parts and
these before the others. -/
def collect (c : Collector TypeId) (pending : List TypeId) : Dialogue (List VarId) :=
  match pending with
  | [] => return c.found
  | id :: rest =>
    if id ∈ c.visited then collect c rest
    else do
      let c' : Collector TypeId := { c with visited := id :: c.visited }
      match ← lookup id with
      | some (.var v) | some (.variadic v) => collect (c'.record v) rest
      | _ => collect c' ((← children id) ++ rest)
termination_by (unvisited c.visited, pending.length)
decreasing_by
  · exact Prod.Lex.right _ (Nat.lt_succ_self _)
  · rw [Collector.visited_record]
    exact Prod.Lex.left _ _ (unvisited_cons_lt ‹_›)
  · exact Prod.Lex.left _ _ (unvisited_cons_lt ‹_›)

/-- Whether a type mentions a variable with a property. -/
def mentions (id : TypeId) (p : VarId → Bool) : Dialogue Bool := do
  return (← collect ⟨[], []⟩ [id]).any p

end Numbered

end VariadicGenerics

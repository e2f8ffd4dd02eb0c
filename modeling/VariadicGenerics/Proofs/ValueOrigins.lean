import Mathlib.Logic.Relation
import VariadicGenerics.Proofs.BindingRuns

/-!
# Where recorded values come from

No value is made up. A type that is recorded for an ordinary variable is a part of an argument. A
sequence that is recorded for a variadic variable is a segment of a list: the arguments of a site,
a list that stands in an argument, or a part of an argument alone. Two arguments of different types
are never joined into a union, and an element without an end is never recorded.

The one list that matching makes itself is `[*Tuple[X, ...]]`, when `Tuple[X, ...]` meets a tuple
with a list of parameters. Its element is not a part of the argument. It cannot be recorded,
because it has no end.

The proof is an instance of the lemmas on permitted values. Parts of arguments are handed down by
every rule of the matcher, and a list is handed down as a whole or as a segment. The list that is
made for a tuple of unknown length satisfies the conditions as well, and the check of sequences,
which refuses elements without an end, is what keeps it from being recorded.

`Environment.Fresh` leaves open in which order variables were registered and how many times, which
is all that a caller can do before the first use.

## Main results

* `Binder.Request.handsDown_occurs`: what matching hands down are parts of the arguments.
* `Binder.Request.values_of_fresh`: the values of an environment that was fresh.
* `Binder.Request.follows_run`: a use records permitted values only.
-/

namespace VariadicGenerics

/-! ### Fresh environments -/

/-- Environments in which variables were registered and nothing else was done. -/
inductive Environment.Fresh : Environment → Prop
  | empty : Fresh .empty
  | register {env : Environment} (fresh : Fresh env) (v : VarId) (kind : VarKind) :
      Fresh (env.register v kind)

namespace Environment

/-- A fresh environment is valid. -/
theorem Fresh.valid {env : Environment} (h : env.Fresh) : env.Valid := by
  induction h with
  | empty => exact valid_empty
  | register fresh v kind ih => exact ih.register kind

/-- A fresh environment has no values. -/
theorem Fresh.probe_eq_none {env : Environment} (h : env.Fresh) (v : VarId) :
    env.probe v = none := by
  induction h with
  | empty => rfl
  | register fresh w kind ih => rw [probe_register, ih]

/-- An environment that was just made is fresh. -/
theorem fresh_ofVariables (vars : Variables) (owned : List VarId) :
    (ofVariables vars owned).Fresh :=
  List.foldlRecOn owned _ Fresh.empty fun _ h v _ => h.register v (vars.kind v)

end Environment

/-! ### Parts of arguments -/

namespace Ty

/-- A type is a part of another when it is reached from it by way of direct parts, in any number
of steps. -/
def IsPartOf (u t : Ty) : Prop := Relation.ReflTransGen (fun t u => u ∈ t.children) t u

/-- The list that stands at the top of a type. -/
inductive HoldsList : Ty → List Ty → Prop
  | arguments (d : DefId) (args : List Ty) : HoldsList (.app d args) args
  | members (members : List Ty) : HoldsList (.union members) members
  | parameters (params : List Ty) (returns : Ty) : HoldsList (.callable params returns) params

/-- The members of a list inside a type are parts of the type. -/
theorem HoldsList.mem_children {t u : Ty} {ts : List Ty} (h : t.HoldsList ts) (hu : u ∈ ts) :
    u ∈ t.children := by
  cases h with
  | arguments | members => exact hu
  | parameters => exact List.mem_append_left _ hu

end Ty

namespace Binder

open Environment

namespace Request

variable {requests : List Request} {t u : Ty} {ts : List Ty}

/-- A type occurs in an argument of a use of the matcher. -/
def Occurs (requests : List Request) (t : Ty) : Prop :=
  ∃ request ∈ requests, ∃ arg ∈ request.args, t.IsPartOf arg

/-- The lists of a use of the matcher: the arguments of a site, the lists that stand in arguments,
and what occurs in an argument as a list of its own. -/
inductive Lists (requests : List Request) : List Ty → Prop
  | site {params args : List Ty} (used : .lists params args ∈ requests) : Lists requests args
  | inside {t : Ty} {ts : List Ty} (occurs : Occurs requests t) (holds : t.HoldsList ts) :
      Lists requests ts
  | alone {t : Ty} (occurs : Occurs requests t) : Lists requests [t]

/-- What occurs in an argument occurs there with its parts. -/
theorem Occurs.of_mem_children (h : Occurs requests t) (hu : u ∈ t.children) :
    Occurs requests u := by
  obtain ⟨request, hrequest, arg, harg, hpart⟩ := h
  exact ⟨request, hrequest, arg, harg, hpart.tail hu⟩

/-- The members of a list that was handed in occur in it. -/
theorem Lists.occurs (h : Lists requests ts) (ht : t ∈ ts) : Occurs requests t := by
  cases h with
  | site used => exact ⟨_, used, t, ht, .refl⟩
  | inside occurs holds => exact occurs.of_mem_children (holds.mem_children ht)
  | alone occurs =>
      rw [List.mem_singleton.mp ht]
      exact occurs

/-- A tuple of unknown length as a list of arguments. -/
def IsSpread (requests : List Request) (ts : List Ty) : Prop :=
  ∃ u, Occurs requests (.unboundedTuple u) ∧ ts = [.unpack (.unboundedTuple u)]

/-- **What matching hands down** occurs in the arguments. -/
theorem handsDown_occurs (requests : List Request) :
    HandsDown (Occurs requests) (fun ts => Lists requests ts ∨ IsSpread requests ts) where
  contributed := by
    rintro ts item t (hlists | ⟨u, hu, rfl⟩) hitem hcontributes
    · exact hcontributes.of_children (fun _ _ hmem h => h.of_mem_children hmem)
        (hlists.occurs hitem)
    · rw [List.mem_singleton.mp hitem, Ty.contributes_repetition_iff] at hcontributes
      rw [hcontributes]
      exact hu.of_mem_children List.mem_cons_self
  arguments := fun h => .inl (.inside h (.arguments _ _))
  parameters := fun h => .inl (.inside h (.parameters _ _))
  returns := fun h => h.of_mem_children (List.mem_append_right _ List.mem_cons_self)
  members := fun h => .inl (.inside h (.members _))
  member := fun h hmem => h.of_mem_children hmem
  element := fun h => h.of_mem_children List.mem_cons_self
  spread := fun h => .inr ⟨_, h, rfl⟩
  alone := fun h => .inl (.alone h)

/-! ### Values -/

/-- A value that was taken from the arguments as it is. -/
def Provides (requests : List Request) : BoundValue → Prop
  | .single t => Occurs requests t
  | .sequence ts => (∃ list, Lists requests list ∧ ts <:+: list) ∧ IsSequence ts

/-- An element without an end is no sequence, so that of a list that matching made itself only the
empty segment is one. -/
theorem provides_of_isInfix {list : List Ty}
    (hlist : Lists requests list ∨ IsSpread requests list) (hts : ts <:+: list)
    (hsequence : IsSequence ts) : Provides requests (.sequence ts) := by
  refine ⟨?_, hsequence⟩
  rcases hlist with hlist | ⟨u, hu, rfl⟩
  · exact ⟨list, hlist, hts⟩
  · refine ⟨[.unboundedTuple u], .alone hu, ?_⟩
    cases ts with
    | nil => exact List.nil_infix
    | cons t rest =>
        have ht := List.mem_singleton.mp (hts.subset (List.mem_cons_self (a := t) (l := rest)))
        exact absurd ht (hsequence.ends t List.mem_cons_self u)

/-- Matching records nothing but what the requests provide. -/
theorem permits_provides (requests : List Request) :
    Permits (fun _ value => Provides requests value) (fun _ => True) (Occurs requests)
      (fun ts => Lists requests ts ∨ IsSpread requests ts) :=
  ⟨handsDown_occurs requests, fun _ _ => trivial, fun _ h => h,
    fun _ hlist hts hsequence => provides_of_isInfix hlist hts hsequence⟩

/-- One of several uses takes values from their arguments. -/
theorem extends_run {request : Request} (hrequest : request ∈ requests) {env : Environment}
    (henv : env.Valid) :
    Extends (fun _ value => Provides requests value) env (request.run env).env := by
  have hargs : request.HandedFrom (Occurs requests)
      (fun ts => Lists requests ts ∨ IsSpread requests ts) := by
    cases request with
    | types param arg => exact ⟨_, hrequest, arg, List.mem_cons_self, .refl⟩
    | lists params args => exact .inl (.site hrequest)
  exact (follows_run (permits_provides requests) (fun _ _ => trivial) hargs env).stops.extends henv

/-- Serving requests extends an environment by what the requests provide. -/
theorem extends_runAll {used : List Request} {env : Environment} (henv : env.Valid)
    (hused : ∀ r ∈ used, r ∈ requests) :
    Extends (fun _ value => Provides requests value) env (runAll env used) := by
  induction used generalizing env with
  | nil => exact henv.extends_self
  | cons request rest ih =>
      rw [List.forall_mem_cons] at hused
      have hfirst := extends_run hused.1 henv
      exact hfirst.trans (ih hfirst.valid hused.2)

/-- **No value is made up.** Let an environment be fresh, and let the matcher be used on it any
number of times, successfully or not. A type that it has for a variable is a part of an argument.
A sequence that it has is a segment of the arguments of a site, of a list that stands in an
argument, or of a part of an argument as a list of its own; it has no element `*Tuple[X, ...]` and
at most one `*Us`. -/
theorem values_of_fresh {env : Environment} (henv : env.Fresh) (requests : List Request)
    (v : VarId) :
    (∀ t, (runAll env requests).probe v = some (.single t) →
        ∃ request ∈ requests, ∃ arg ∈ request.args, t.IsPartOf arg) ∧
      ∀ ts, (runAll env requests).probe v = some (.sequence ts) →
        (∃ list, Lists requests list ∧ ts <:+: list) ∧
          (∀ t ∈ ts, ∀ u, t ≠ .unpack (.unboundedTuple u)) ∧ ts.countP Ty.isOpen ≤ 1 := by
  have hextends := extends_runAll henv.valid (fun r (hr : r ∈ requests) => hr)
  have hprovides (value : BoundValue) (h : (runAll env requests).probe v = some value) :
      Provides requests value := by
    rcases hextends.offered v value h with hold | ⟨-, hoffered⟩
    · rw [henv.probe_eq_none] at hold
      cases hold
    · exact hoffered
  refine ⟨fun t ht => hprovides _ ht, fun ts hts => ?_⟩
  obtain ⟨hlist, hsequence⟩ := hprovides _ hts
  exact ⟨hlist, hsequence.ends, hsequence.one_open⟩

/-- From `Callable[[int, *Us], None | Array[str]]` matched with `Callable[[*Ts], Array[T] | None]`
come the sequence `int, *Us` and the type `str`. A second use fails, and what it recorded before
comes from its own argument. -/
theorem values_of_fresh_callable :
    let vars : Variables :=
      ⟨#[⟨"T", .single⟩, ⟨"Ts", .variadic⟩, ⟨"Us", .variadic⟩, ⟨"S", .single⟩]⟩
    let first : Request := .types
      (.callable [.unpack (.variadic ⟨1⟩)] (.union [.app ⟨2⟩ [.var ⟨0⟩], .noneType]))
      (.callable [.builtin .int, .unpack (.variadic ⟨2⟩)]
        (.union [.noneType, .app ⟨2⟩ [.builtin .str]]))
    let second : Request := .lists [.unboundedTuple (.var ⟨3⟩), .var ⟨0⟩]
      [.app .tuple [.builtin .bool], .builtin .bytes]
    let env := runAll (.ofVariables vars [⟨0⟩, ⟨1⟩, ⟨3⟩]) [first, second]
    (env.probe ⟨1⟩ = some (.sequence [.builtin .int, .unpack (.variadic ⟨2⟩)]) ∧
        ∃ list, Lists [first, second] list ∧
          [.builtin .int, .unpack (.variadic ⟨2⟩)] <:+: list) ∧
      env.probe ⟨3⟩ = some (.single (.builtin .bool)) ∧
        ∃ request ∈ [first, second], ∃ arg ∈ request.args, (Ty.builtin .bool).IsPartOf arg := by
  intro vars first second env
  have hfresh := fresh_ofVariables vars [⟨0⟩, ⟨1⟩, ⟨3⟩]
  have hsequence : env.probe ⟨1⟩ = some (.sequence [.builtin .int, .unpack (.variadic ⟨2⟩)]) := by
    decide
  have hsingle : env.probe ⟨3⟩ = some (.single (.builtin .bool)) := by decide
  exact ⟨⟨hsequence, ((values_of_fresh hfresh _ _).2 _ hsequence).1⟩, hsingle,
    (values_of_fresh hfresh _ _).1 _ hsingle⟩

end Request

end Binder

end VariadicGenerics

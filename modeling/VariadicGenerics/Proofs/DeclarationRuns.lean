import VariadicGenerics.Proofs.Calls

/-!
# Runs of declarations

Declarations are made one after another, and some of them are refused. What is stored was checked
when it was declared, part by part: each parameter of a function on its own, and its `*args` by
what the annotation stands for. A call puts these parts together into one list and normalises it.
The parts are in normal form and all but the one of `*args` are closed, so that nothing is left
for a call to refuse.

The number of a declaration is a word of 32 bits, counted up from two without a check. When all
words are taken the count starts again from zero, and what has the next number then is replaced. So
what is said about numbers and look-ups holds exactly of the runs that accept no more declarations
than there are words left.

A run is a list of requests, some of which are refused. Nothing is assumed about them but that each
is written in the way a declaration is: with types, and with plain references to variadic variables
where `*args` allows them. Induction on the run keeps two facts. The store is the list of what was
accepted, and everything in it was validated when it was stored.

Numbers are compared as words. As long as the numbers do not start again they are the numbers from
two upward, in order, and a look-up answers the declaration that got the number. The run that is one
too long is built explicitly, and the first and the last of its classes share a number.

## Main results

* `Signature.exists_callParameters`: the parameter list of a checked signature.
* `Declaration.register_of_declare`: what is stored for an accepted declaration.
* `Declaration.run_cases`: what one declaration of a run does.
* `Declaration.declared_of_runAll`: numbers, look-ups and stored declarations after any run.
* `Declaration.not_declared_of_runAll`: a run with more declarations than numbers.
-/

namespace VariadicGenerics

/-! ### Written types -/

namespace Ty

/-- A type or a plain reference to a variadic variable. -/
def Named (vars : Variables) (t : Ty) : Prop :=
  t.WellFormed vars ∨ ∃ v, t = .variadic v ∧ vars.kind v = .variadic

/-- A type as it is written in a declaration: a type or a variadic variable, unpacked or not. -/
def Written (vars : Variables) (t : Ty) : Prop :=
  t.Named vars ∨ ∃ u, t = .unpack u ∧ u.Named vars

end Ty

variable {vars : Variables}

/-! ### Parameter lists -/

/-- Elements in normal form, with at most `n` of them open. -/
structure NormalUpTo (n : Nat) (elements : List Ty) : Prop where
  element : ∀ t ∈ elements, t.isElement = true
  opens : elements.countP Ty.isOpen ≤ n

/-- Two lists with their open elements counted make one. -/
theorem NormalUpTo.append {m n : Nat} {xs ys : List Ty} (hxs : NormalUpTo m xs)
    (hys : NormalUpTo n ys) : NormalUpTo (m + n) (xs ++ ys) := by
  refine ⟨List.forall_mem_append.mpr ⟨hxs.element, hys.element⟩, ?_⟩
  rw [List.countP_append]
  exact Nat.add_le_add hxs.opens hys.opens

/-- Elements in normal form, with at most one that is open, are their own normal form. -/
theorem NormalUpTo.normalizeList {elements : List Ty} (h : NormalUpTo 1 elements) :
    (Construct.normalizeList elements).result = .ok elements := by
  have hsplice := Ty.flatMap_splice_of_isElement h.element
  refine Construct.normalizeList_eq_ok_iff.mpr ⟨?_, hsplice, ?_⟩
  · exact fun t ht => (Ty.isItem_of_isElement (h.element t ht)).1
  · rw [hsplice]
    exact h.opens

/-- One element is a list in normal form. -/
theorem normalUpTo_singleton {n : Nat} {t : Ty} (ht : t.isElement = true)
    (hopen : t.isOpen = true → 1 ≤ n) : NormalUpTo n [t] := by
  refine ⟨List.forall_mem_singleton.mpr ht, ?_⟩
  rw [List.countP_singleton]
  split
  · next h => exact hopen h
  · exact Nat.zero_le n

/-- The elements that an unpacking stands for. -/
theorem normalUpTo_splice_unpack {t : Ty} (ht : t.Named vars)
    (hitem : Construct.isItem (.unpack t) = true)
    (hopen : (Construct.splice (.unpack t)).countP Ty.isOpen ≤ 1) :
    NormalUpTo 1 (Construct.splice (.unpack t)) := by
  refine ⟨?_, hopen⟩
  cases t with
  | app d items =>
      have hwf := ht.resolve_right (by rintro ⟨v, ⟨⟩, -⟩)
      intro u hu
      exact ((Ty.wellFormed_app_iff.mp hwf).1.element u hu).1
  | bare | unboundedTuple | variadic => exact List.forall_mem_singleton.mpr rfl
  | _ => exact absurd hitem Bool.false_ne_true

namespace Parameter

/-- How many open elements a parameter may stand for. -/
def opens (p : Parameter) : Nat :=
  match p.kind with
  | .positional => 0
  | .varArgs => 1

/-- **The elements of a parameter** are in normal form, and only those of `*args` may be open. -/
theorem normalUpTo_elements {p : Parameter} {elements : List Ty} (hp : p.type.Written vars)
    (hok : p.elements.result = .ok elements) : NormalUpTo p.opens elements := by
  rw [Parameter.elements] at hok
  generalize p.type = t at hok hp
  rw [opens]
  cases hkind : p.kind with
  | positional =>
      rw [hkind] at hok
      obtain ⟨u, hu, heq⟩ := Build.bind_eq_ok_iff.mp hok
      obtain rfl := Except.ok.inj heq
      obtain ⟨hsingle, rfl⟩ := Construct.standalone_eq_ok_iff.mp hu
      refine normalUpTo_singleton (Ty.isElement_of_isStandalone hsingle) fun hopen => ?_
      rw [Ty.isOpen_eq_false_of_isStandalone hsingle] at hopen
      cases hopen
  | varArgs =>
      rw [hkind] at hok
      cases t with
      | unpack u =>
          have hu : u.Named vars := by
            rcases hp with (hwf | ⟨v, ⟨⟩, -⟩) | ⟨_, ⟨⟩, hu⟩
            · exact absurd hwf Ty.not_wellFormed_unpack
            · exact hu
          obtain ⟨hitem, rfl, hopen⟩ := Construct.normalizeList_eq_ok_iff.mp hok
          rw [List.flatMap_singleton] at hopen ⊢
          exact normalUpTo_splice_unpack hu (hitem _ List.mem_cons_self) hopen
      | _ =>
          obtain rfl := Except.ok.inj hok
          exact normalUpTo_singleton rfl fun _ => Nat.le_refl 1

end Parameter

namespace Signature

variable {s : Signature}

/-- The parts of a parameter list hold no more open elements than there are `*args`. -/
theorem exists_parts {params : List Parameter} (hwritten : ∀ p ∈ params, p.type.Written vars)
    (helements : ∀ p ∈ params, ∃ elements, p.elements.result = .ok elements) :
    ∃ parts, (params.mapM Parameter.elements).result = .ok parts ∧
      NormalUpTo (params.filter fun p => p.kind == .varArgs).length parts.flatten := by
  induction params with
  | nil => exact ⟨[], rfl, fun _ ht => absurd ht List.not_mem_nil, Nat.le_refl 0⟩
  | cons p rest ih =>
      rw [List.forall_mem_cons] at hwritten helements
      obtain ⟨elements, hfirst⟩ := helements.1
      obtain ⟨parts, hparts, hnormal⟩ := ih hwritten.2 helements.2
      have hall := Build.mapM_eq_ok_iff.mpr (.cons hfirst (Build.mapM_eq_ok_iff.mp hparts))
      refine ⟨elements :: parts, hall, ?_⟩
      have hboth := (Parameter.normalUpTo_elements hwritten.1 hfirst).append hnormal
      have hcount : ((p :: rest).filter fun p => p.kind == .varArgs).length =
          p.opens + (rest.filter fun p => p.kind == .varArgs).length := by
        rw [List.filter_cons, Parameter.opens]
        cases p.kind with
        | positional => simp
        | varArgs => simp [Nat.add_comm]
      rw [List.flatten_cons, hcount]
      exact hboth

/-- **The parameter list of a checked signature**: what each parameter stands for makes one list
in normal form, with at most one open element. -/
theorem exists_callParameters (hwritten : ∀ t ∈ s.types, t.Written vars)
    (hvarArgs : s.varArgs.length ≤ 1)
    (helements : ∀ p ∈ s.params, ∃ elements, p.elements.result = .ok elements) :
    ∃ params, s.callParameters.result = .ok params ∧
      (Construct.normalizeList params).result = .ok params ∧ params.countP Ty.isOpen ≤ 1 := by
  have hparams : ∀ p ∈ s.params, p.type.Written vars := fun p hp =>
    hwritten p.type (List.mem_append_left _ (List.mem_map_of_mem hp))
  obtain ⟨parts, hparts, hnormal⟩ := exists_parts hparams helements
  have hone : NormalUpTo 1 parts.flatten :=
    ⟨hnormal.element, Nat.le_trans hnormal.opens hvarArgs⟩
  refine ⟨parts.flatten, ?_, hone.normalizeList, hone.opens⟩
  exact Build.bind_eq_ok_iff.mpr ⟨parts, hparts, hone.normalizeList⟩

end Signature

/-! ### One declaration -/

/-- A declaration as a user makes it. -/
inductive Declaration where
  | nominal (name : String) (params : List VarId)
  | typeAlias (name : String) (params : List VarId) (body : Ty)
  | function (name : String) (signatures : List Signature)
  deriving DecidableEq, Repr

namespace Declaration

/-- The types that a declaration is written with. -/
def types : Declaration → List Ty
  | nominal .. => []
  | typeAlias _ _ body => [body]
  | function _ signatures => signatures.flatMap Signature.types

/-- Make a declaration. -/
def declare (vars : Variables) (defs : Definitions) :
    Declaration → Build ConstructionError (DefId × Definitions)
  | nominal name params => defs.declareClass vars name params
  | typeAlias name params body => defs.declareAlias vars name params body
  | function name signatures => defs.declareFunction name signatures

/-- What is stored for a declaration: the type parameters of a signature are the variables that
occur in it. -/
def definition : Declaration → Definition
  | nominal name params => ⟨name, .nominal params, none⟩
  | typeAlias name params body => ⟨name, .typeAlias params (some body), none⟩
  | function name signatures =>
    ⟨name, .function (signatures.map fun s => { s with typeParams := Ty.varsOf s.types }), none⟩

end Declaration

/-! ### What is stored -/

/-- How many of several variables are variadic. -/
def Variables.variadicCount (vars : Variables) (params : List VarId) : Nat :=
  params.countP fun v => vars.kind v == .variadic

/-- A signature that a call can rely on. -/
structure Signature.Validated (s : Signature) : Prop where
  varArgs : s.varArgs.length ≤ 1
  /-- The type parameters are the variables of the parameters and the return type, by first
  occurrence. -/
  typeParams : s.typeParams = (Ty.occurrencesAll s.types).eraseDups
  /-- The parameters make a list in normal form with at most one open element. -/
  callParameters : ∃ params, s.callParameters.result = .ok params ∧
    (Construct.normalizeList params).result = .ok params ∧ params.countP Ty.isOpen ≤ 1

/-- A declaration that its uses can rely on: a class has one variadic parameter at most, and only
the last parameter of an alias may be variadic. -/
def Definition.Validated (vars : Variables) (definition : Definition) : Prop :=
  match definition.content with
  | .tuple => True
  | .nominal params => vars.variadicCount params ≤ 1
  | .typeAlias params _ => ∀ v ∈ params.dropLast, vars.kind v = .single
  | .function signatures => ∀ s ∈ signatures, s.Validated

namespace Definitions

/-- Checked parameters have at most one variadic variable among them. -/
theorem variadicCount_of_checked {params : List VarId}
    (h : (checkSingleVariadic vars params).result = .ok ()) : vars.variadicCount params ≤ 1 := by
  rw [Variables.variadicCount, List.countP_eq_length_filter]
  rw [checkSingleVariadic] at h
  split at h
  · cases h
  · next hfew =>
      match hvariadic : params.filter fun v => vars.kind v == .variadic with
      | [] | [_] => simp
      | first :: second :: rest => exact absurd hvariadic (hfew first second rest)

/-- Parameters of which at most one is left behind the leading ordinary ones. -/
theorem single_of_mem_dropLast {params : List VarId}
    (h : ∀ v u rest, (params.dropWhile fun v => vars.kind v == .single) ≠ v :: u :: rest) :
    ∀ v ∈ params.dropLast, vars.kind v = .single := by
  have hsingle : ∀ v ∈ params.takeWhile fun v => vars.kind v == .single, vars.kind v = .single :=
    fun v hv => eq_of_beq (List.all_eq_true.mp List.all_takeWhile v hv)
  have hsplit :=
    List.takeWhile_append_dropWhile (p := fun v => vars.kind v == .single) (l := params)
  intro v hv
  match hrest : params.dropWhile fun v => vars.kind v == .single with
  | [] =>
      rw [hrest, List.append_nil] at hsplit
      rw [hsplit] at hsingle
      exact hsingle v (List.dropLast_subset _ hv)
  | [last] =>
      rw [hrest] at hsplit
      rw [← hsplit, List.dropLast_concat] at hv
      exact hsingle v hv
  | u :: u' :: rest => exact absurd hrest (h u u' rest)

/-- An accepted alias is stored as it is, and only its last parameter may be variadic. -/
theorem register_of_declareAlias {defs : Definitions} {name : String} {params : List VarId}
    {body : Ty} {x : DefId × Definitions}
    (h : (defs.declareAlias vars name params body).result = .ok x) :
    defs.register ⟨name, .typeAlias params (some body), none⟩ = x ∧
      ∀ v ∈ params.dropLast, vars.kind v = .single := by
  obtain ⟨_, -, hlast⟩ := Build.bind_eq_ok_iff.mp h
  split at hlast
  · cases hlast
  · next hfew => exact ⟨Except.ok.inj hlast, single_of_mem_dropLast hfew⟩

/-- What is found under the number of an accepted alias. -/
theorem eq_of_declareAlias {defs defs' : Definitions} {name : String} {params : List VarId}
    {body : Ty} {d : DefId} {definition : Definition}
    (hdeclared : (defs.declareAlias vars name params body).result = .ok (d, defs'))
    (hdefinition : defs'.get? d = some definition) :
    definition = ⟨name, .typeAlias params (some body), none⟩ ∧
      ∀ v ∈ params.dropLast, vars.kind v = .single := by
  obtain ⟨hregister, hlast⟩ := register_of_declareAlias hdeclared
  have hstored := get?_register defs ⟨name, .typeAlias params (some body), none⟩
  rw [hregister, hdefinition] at hstored
  exact ⟨Option.some.inj hstored, hlast⟩

end Definitions

/-- A signature that passes its check is validated. -/
theorem Signature.validated_of_check {s s' : Signature}
    (hwritten : ∀ t ∈ s.types, t.Written vars) (h : s.check.result = .ok s') :
    { s with typeParams := Ty.varsOf s.types } = s' ∧ s'.Validated := by
  obtain ⟨hvarArgs, helements, -, rfl⟩ := Signature.check_eq_ok_iff.mp h
  refine ⟨rfl, hvarArgs, Ty.varsOf_eq_eraseDups s.types, ?_⟩
  exact Signature.exists_callParameters hwritten hvarArgs helements

namespace Declaration

variable {defs : Definitions} {d : Declaration} {x : DefId × Definitions}

/-- **An accepted declaration** is stored under the next number, and its uses can rely on it. -/
theorem register_of_declare (hwritten : ∀ t ∈ d.types, t.Written vars)
    (h : (d.declare vars defs).result = .ok x) :
    defs.register d.definition = x ∧ d.definition.Validated vars := by
  cases d with
  | nominal name params =>
      obtain ⟨_, hchecked, heq⟩ := Build.bind_eq_ok_iff.mp h
      exact ⟨Except.ok.inj heq, Definitions.variadicCount_of_checked hchecked⟩
  | typeAlias name params body => exact Definitions.register_of_declareAlias h
  | function name signatures =>
      obtain ⟨checked, hchecked, heq⟩ := Build.bind_eq_ok_iff.mp h
      have hone : ∀ s ∈ signatures, ∀ s', s.check.result = .ok s' →
          { s with typeParams := Ty.varsOf s.types } = s' ∧ s'.Validated := fun s hs s' =>
        Signature.validated_of_check fun t ht => hwritten t (List.mem_flatMap.mpr ⟨s, hs, ht⟩)
      have hstored : signatures.map (fun s => { s with typeParams := Ty.varsOf s.types }) =
          checked := by
        rw [← List.forall₂_eq_eq_eq, List.forall₂_map_left_iff]
        have hall := (List.forall₂_and_left _ _).mpr ⟨hone, Build.mapM_eq_ok_iff.mp hchecked⟩
        exact hall.imp fun s s' h => (h.1 s' h.2).1
      refine ⟨?_, ?_⟩
      · rw [definition, hstored]
        exact Except.ok.inj heq
      · rw [definition, hstored]
        intro s' hs'
        obtain ⟨s, hs, hcheck⟩ := Build.exists_of_mem_mapM hchecked hs'
        exact (hone s hs s' hcheck).2

/-! ### Runs -/

/-- Make a declaration in a store, which a refused one leaves as it is. -/
def run (vars : Variables) (defs : Definitions) (d : Declaration) :
    Except ConstructionError DefId × Definitions :=
  match (d.declare vars defs).result with
  | .ok (id, defs) => (.ok id, defs)
  | .error e => (.error e, defs)

/-- Make several declarations one after another: their answers, and the store at the end. -/
def runAll (vars : Variables) (defs : Definitions) :
    List Declaration → List (Except ConstructionError DefId) × Definitions
  | [] => ([], defs)
  | d :: rest =>
    let (answer, defs) := d.run vars defs
    let (answers, defs) := runAll vars defs rest
    (answer :: answers, defs)

/-- The first declaration is run first. -/
theorem runAll_cons (vars : Variables) (defs : Definitions) (d : Declaration)
    (rest : List Declaration) :
    runAll vars defs (d :: rest) =
      ((d.run vars defs).1 :: (runAll vars (d.run vars defs).2 rest).1,
        (runAll vars (d.run vars defs).2 rest).2) :=
  rfl

/-- **One declaration of a run** is stored under the next number, or changes nothing. -/
theorem run_cases (defs : Definitions) (hwritten : ∀ t ∈ d.types, t.Written vars) :
    d.run vars defs = (.ok defs.nextId, (defs.register d.definition).2) ∧
        d.definition.Validated vars ∨
      ∃ e, d.run vars defs = (.error e, defs) := by
  rw [run]
  cases h : (d.declare vars defs).result with
  | ok x =>
      obtain ⟨rfl, hvalid⟩ := register_of_declare hwritten h
      exact .inl ⟨rfl, hvalid⟩
  | error e => exact .inr ⟨e, rfl⟩

/-- Runs compose. -/
theorem runAll_append (vars : Variables) (defs : Definitions) (before rest : List Declaration) :
    runAll vars defs (before ++ rest) =
      ((runAll vars defs before).1 ++ (runAll vars (runAll vars defs before).2 rest).1,
        (runAll vars (runAll vars defs before).2 rest).2) := by
  induction before generalizing defs with
  | nil => rfl
  | cons d before ih => rw [List.cons_append, runAll_cons, ih, runAll_cons, List.cons_append]

/-! ### Numbers -/

/-- The numbers of the declarations that were accepted. -/
def accepted (answers : List (Except ConstructionError DefId)) : List DefId :=
  answers.filterMap Except.toOption

variable {requests : List Declaration} {id : DefId} {definition : Definition} {n : Nat}

/-- The accepted declarations of the first part of a run are no more than those of the run. -/
theorem length_accepted_take_le (vars : Variables) (defs : Definitions)
    (requests : List Declaration) (k : Nat) :
    (accepted (runAll vars defs (requests.take k)).1).length ≤
      (accepted (runAll vars defs requests).1).length := by
  conv_rhs => rw [← List.take_append_drop k requests, runAll_append]
  rw [accepted, accepted, List.filterMap_append, List.length_append]
  exact Nat.le_add_right _ _

/-- One accepted declaration moves the next number on by one. -/
theorem nextId_register (definition : Definition) (hnext : defs.nextId = ⟨.ofNat n⟩) :
    (defs.register definition).2.nextId = ⟨.ofNat (n + 1)⟩ := by
  rw [Definitions.register, hnext, UInt32.ofNat_add]
  rfl

/-- **The accepted declarations** of a run get the numbers that follow, as words. -/
theorem accepted_runAll (hwritten : ∀ d ∈ requests, ∀ t ∈ d.types, t.Written vars)
    (hnext : defs.nextId = ⟨.ofNat n⟩) :
    accepted (runAll vars defs requests).1 =
      (List.range' n (accepted (runAll vars defs requests).1).length).map (⟨.ofNat ·⟩) := by
  induction requests generalizing defs n with
  | nil => rfl
  | cons d rest ih =>
      rw [List.forall_mem_cons] at hwritten
      rw [runAll_cons]
      rcases run_cases defs hwritten.1 with ⟨hrun, -⟩ | ⟨e, hrun⟩
      · have hrest := ih hwritten.2 (nextId_register d.definition hnext)
        rw [hrun, hnext]
        exact congrArg (DefId.mk (.ofNat n) :: ·) hrest
      · rw [hrun]
        exact ih hwritten.2 hnext

/-- **What a number means** stays as it is during a run that does not go beyond the last word. -/
theorem get?_runAll (hwritten : ∀ d ∈ requests, ∀ t ∈ d.types, t.Written vars)
    (hnext : defs.nextId = ⟨.ofNat n⟩) (hid : id.index.toNat < n)
    (hfew : n + (accepted (runAll vars defs requests).1).length ≤ UInt32.size) :
    (runAll vars defs requests).2.get? id = defs.get? id := by
  induction requests generalizing defs n with
  | nil => rfl
  | cons d rest ih =>
      rw [List.forall_mem_cons] at hwritten
      rw [runAll_cons] at hfew ⊢
      rcases run_cases defs hwritten.1 with ⟨hrun, -⟩ | ⟨e, hrun⟩
      · rw [hrun] at hfew ⊢
        have hmore : n + 1 + (accepted (runAll vars (defs.register d.definition).2 rest).1).length ≤
            UInt32.size := Nat.le_trans (Nat.le_of_eq (Nat.add_right_comm n 1 _)) hfew
        -- The next number is larger than all numbers so far.
        have hne : id ≠ defs.nextId := by
          rintro rfl
          rw [hnext, UInt32.toNat_ofNat_of_lt' (by omega)] at hid
          exact Nat.lt_irrefl n hid
        have hrest := ih hwritten.2 (nextId_register d.definition hnext) (Nat.lt_succ_of_lt hid)
          hmore
        exact hrest.trans (Definitions.get?_register_of_ne hne)
      · rw [hrun] at hfew ⊢
        exact ih hwritten.2 hnext hid hfew

/-- **An accepted declaration** is found under its number at every later time, as long as the
numbers do not start again. -/
theorem get?_of_accepted (hwritten : ∀ d ∈ requests, ∀ t ∈ d.types, t.Written vars)
    (hnext : defs.nextId = ⟨.ofNat n⟩)
    (hfew : n + (accepted (runAll vars defs requests).1).length ≤ UInt32.size) {j k : Nat}
    (hd : requests[j]? = some d) (hid : (runAll vars defs requests).1[j]? = some (.ok id))
    (hjk : j < k) : (runAll vars defs (requests.take k)).2.get? id = some d.definition := by
  induction requests generalizing defs n j k with
  | nil => cases hd
  | cons first rest ih =>
      rw [List.forall_mem_cons] at hwritten
      obtain ⟨k, rfl⟩ := Nat.exists_eq_succ_of_ne_zero (Nat.ne_zero_of_lt hjk)
      rw [List.take_succ_cons, runAll_cons]
      rw [runAll_cons] at hfew hid
      rcases run_cases defs hwritten.1 with ⟨hrun, -⟩ | ⟨e, hrun⟩
      · rw [hrun] at hfew hid ⊢
        have hnext' := nextId_register first.definition hnext
        have hmore : n + 1 +
            (accepted (runAll vars (defs.register first.definition).2 rest).1).length ≤
              UInt32.size := Nat.le_trans (Nat.le_of_eq (Nat.add_right_comm n 1 _)) hfew
        cases j with
        | zero =>
            obtain rfl := Option.some.inj hd
            obtain rfl := Except.ok.inj (Option.some.inj hid)
            have hlt : defs.nextId.index.toNat < n + 1 := by
              rw [hnext, UInt32.toNat_ofNat']
              exact Nat.lt_succ_of_le (Nat.mod_le _ _)
            have hpart := length_accepted_take_le vars (defs.register first.definition).2 rest k
            refine (get?_runAll (fun d hd => hwritten.2 d (List.mem_of_mem_take hd)) hnext' hlt
              (by omega)).trans ?_
            exact Definitions.get?_register defs first.definition
        | succ j => exact ih hwritten.2 hnext' hmore hd hid (Nat.lt_of_succ_lt_succ hjk)
      · rw [hrun] at hfew hid ⊢
        cases j with
        | zero => cases hid
        | succ j => exact ih hwritten.2 hnext hfew hd hid (Nat.lt_of_succ_lt_succ hjk)

/-- **One request of a run** is stored under the number that it gets, or is refused with the store
left as it is. -/
theorem answer_of_request (hwritten : ∀ d ∈ requests, ∀ t ∈ d.types, t.Written vars) {j : Nat}
    (hd : requests[j]? = some d) :
    (∃ id, (runAll vars defs requests).1[j]? = some (.ok id) ∧
        (runAll vars defs (requests.take (j + 1))).2.get? id = some d.definition) ∨
      ∃ e, (runAll vars defs requests).1[j]? = some (.error e) ∧
        (runAll vars defs (requests.take (j + 1))).2 =
          (runAll vars defs (requests.take j)).2 := by
  induction requests generalizing defs j with
  | nil => cases hd
  | cons first rest ih =>
      rw [List.forall_mem_cons] at hwritten
      simp only [runAll_cons, List.take_succ_cons]
      cases j with
      | zero =>
          obtain rfl := Option.some.inj hd
          rcases run_cases defs hwritten.1 with ⟨hrun, -⟩ | ⟨e, hrun⟩
          · rw [hrun]
            exact .inl ⟨_, rfl, Definitions.get?_register defs first.definition⟩
          · rw [hrun]
            exact .inr ⟨e, rfl, rfl⟩
      | succ j => exact ih hwritten.2 hd

/-- The declarations of a run can be relied on when those before it can. -/
theorem validated_runAll (hwritten : ∀ d ∈ requests, ∀ t ∈ d.types, t.Written vars)
    (hdefs : ∀ entry ∈ defs.entries, entry.2.Validated vars) :
    ∀ entry ∈ (runAll vars defs requests).2.entries, entry.2.Validated vars := by
  induction requests generalizing defs with
  | nil => exact hdefs
  | cons d rest ih =>
      rw [List.forall_mem_cons] at hwritten
      rw [runAll_cons]
      refine ih hwritten.2 ?_
      rcases run_cases defs hwritten.1 with ⟨hrun, hvalid⟩ | ⟨e, hrun⟩
      · rw [hrun]
        refine List.forall_mem_cons.mpr ⟨hvalid, fun entry hmem => ?_⟩
        exact hdefs entry (List.mem_of_mem_filter hmem)
      · rw [hrun]
        exact hdefs

/-- With more declarations than numbers, the one that comes after the largest number gets zero. -/
theorem exists_accepted_zero (hwritten : ∀ d ∈ requests, ∀ t ∈ d.types, t.Written vars)
    (hmany : UInt32.size - 2 < (accepted (runAll vars .empty requests).1).length) :
    (accepted (runAll vars .empty requests).1)[UInt32.size - 2]? = some ⟨0⟩ := by
  rw [accepted_runAll hwritten (n := 2) rfl, List.getElem?_map, List.getElem?_range' hmany]
  rfl

/-- **Checking declarations when they are made is enough.** In every run of declarations, each is
stored under the number that it gets, or is refused with the store left as it is, and all that is
found can be relied on. The numbers are the ones from two on, and what was accepted is found under
its number at every later time, if and only if there are enough words of 32 bits for all that were
accepted. -/
theorem declared_of_runAll (hwritten : ∀ d ∈ requests, ∀ t ∈ d.types, t.Written vars) :
    (∀ (j : Nat) d, requests[j]? = some d →
        (∃ id, (runAll vars .empty requests).1[j]? = some (.ok id) ∧
            (runAll vars .empty (requests.take (j + 1))).2.get? id = some d.definition) ∨
          ∃ e, (runAll vars .empty requests).1[j]? = some (.error e) ∧
            (runAll vars .empty (requests.take (j + 1))).2 =
              (runAll vars .empty (requests.take j)).2) ∧
      (∀ id definition, (runAll vars .empty requests).2.get? id = some definition →
        definition.Validated vars) ∧
      ((accepted (runAll vars .empty requests).1).map (fun id => id.index.toNat) =
            List.range' 2 (accepted (runAll vars .empty requests).1).length ∧
          (∀ (j k : Nat) d id, requests[j]? = some d →
            (runAll vars .empty requests).1[j]? = some (.ok id) → j < k →
              (runAll vars .empty (requests.take k)).2.get? id = some d.definition) ↔
        (accepted (runAll vars .empty requests).1).length ≤ UInt32.size - 2) := by
  refine ⟨fun j d => answer_of_request hwritten, fun id definition h => ?_, ?_, fun hfew => ?_⟩
  · refine validated_runAll hwritten ?_ (id, definition) (Definitions.mem_of_get? h)
    exact List.forall_mem_singleton.mpr trivial
  · rintro ⟨hnumbers, -⟩
    by_contra hmany
    have hmany := Nat.lt_of_not_le hmany
    have hzero := congrArg (fun numbers : List Nat => numbers[UInt32.size - 2]?) hnumbers
    rw [List.getElem?_map, exists_accepted_zero hwritten hmany, List.getElem?_range' hmany] at hzero
    exact absurd (Option.some.inj hzero) (by decide)
  · have hsize : 2 ≤ UInt32.size := by decide
    refine ⟨?_, fun j k d id hd hid hjk =>
      get?_of_accepted hwritten (n := 2) rfl (by omega) hd hid hjk⟩
    conv_lhs => rw [accepted_runAll hwritten (n := 2) rfl, List.map_map]
    refine (List.map_congr_left fun i hi => ?_).trans (List.map_id _)
    have hlt := (List.mem_range'_1.mp hi).2
    exact UInt32.toNat_ofNat_of_lt' (by omega)

/-- A class with two variadic parameters is refused. The function declared after it, whose `*args`
is an unpacked tuple with a variadic element, gets the first number. -/
theorem declared_of_runAll_refused :
    let vars : Variables := ⟨#[⟨"Ts", .variadic⟩, ⟨"Us", .variadic⟩]⟩
    let ts : Ty := .unpack (.variadic ⟨0⟩)
    let tuple : Ty := .app .tuple [.any, ts]
    let box : Declaration := .nominal "Box" [⟨0⟩, ⟨1⟩]
    let call : Declaration := .function "call" [⟨[], [⟨"args", .unpack tuple, .varArgs⟩], tuple⟩]
    let (answers, defs) := runAll vars .empty [box, call]
    answers = [.error (.multipleVariadic ts (.unpack (.variadic ⟨1⟩))), .ok ⟨2⟩] ∧
      defs.get? ⟨2⟩ = some call.definition ∧
      ∀ id definition, defs.get? id = some definition → definition.Validated vars := by
  intro vars ts tuple box call
  have htuple : tuple.WellFormed vars := by decide
  have hwritten : ∀ d ∈ [box, call], ∀ t ∈ d.types, t.Written vars := by
    intro d hd t ht
    simp only [List.mem_cons, List.not_mem_nil, or_false] at hd
    rcases hd with rfl | rfl
    · cases ht
    · rcases List.mem_cons.mp ht with rfl | ht
      · exact .inr ⟨tuple, rfl, .inl htuple⟩
      · exact .inl (.inl (List.mem_singleton.mp ht ▸ htuple))
  obtain ⟨-, hvalid, hnumbers⟩ := declared_of_runAll hwritten
  have hfound := (hnumbers.mpr (by decide)).2
  exact ⟨by decide, hfound 1 2 call ⟨2⟩ rfl (by decide) (by decide), hvalid⟩

/-! ### More declarations than numbers -/

/-- A class without parameters is accepted. -/
theorem run_nominal (vars : Variables) (defs : Definitions) (name : String) :
    (nominal name []).run vars defs =
      (.ok defs.nextId, (defs.register (nominal name []).definition).2) := rfl

/-- Classes without parameters get the numbers that follow. -/
theorem runAll_nominal (vars : Variables) (hnext : defs.nextId = ⟨.ofNat n⟩) (m : Nat) :
    (runAll vars defs (List.replicate m (nominal "A" []))).1 =
        (List.range' n m).map (fun i => .ok ⟨.ofNat i⟩) ∧
      (runAll vars defs (List.replicate m (nominal "A" []))).2.nextId = ⟨.ofNat (n + m)⟩ := by
  induction m generalizing defs n with
  | zero => exact ⟨rfl, hnext⟩
  | succ m ih =>
      obtain ⟨hanswers, hlast⟩ := ih (nextId_register (nominal "A" []).definition hnext)
      rw [List.replicate_succ, runAll_cons, run_nominal, hnext]
      refine ⟨congrArg (Except.ok ⟨.ofNat n⟩ :: ·) hanswers, hlast.trans ?_⟩
      rw [Nat.add_right_comm n 1 m, Nat.add_assoc]

/-- A class that is declared after all words are taken gets the number of the first one, and is
found in its place. -/
theorem runAll_nominal_wraps {m : Nat} (hpos : 0 < m) (hwraps : UInt32.ofNat m = 0) :
    (runAll vars .empty (List.replicate m (nominal "A" []) ++ [nominal "B" []])).1[0]? =
        some (.ok ⟨2⟩) ∧
      (runAll vars .empty [nominal "A" []]).2.get? ⟨2⟩ = some (nominal "A" []).definition ∧
      (runAll vars .empty (List.replicate m (nominal "A" []) ++ [nominal "B" []])).1[m]? =
        some (.ok ⟨2⟩) ∧
      (runAll vars .empty (List.replicate m (nominal "A" []) ++ [nominal "B" []])).2.get? ⟨2⟩ =
        some (nominal "B" []).definition := by
  obtain ⟨hanswers, hlast⟩ := runAll_nominal vars (n := 2) (rfl : Definitions.empty.nextId = _) m
  have hnext : (runAll vars .empty (List.replicate m (nominal "A" []))).2.nextId = ⟨2⟩ := by
    rw [hlast, UInt32.ofNat_add, hwraps]
    rfl
  have hlength : (runAll vars .empty (List.replicate m (nominal "A" []))).1.length = m := by
    rw [hanswers, List.length_map, List.length_range']
  rw [runAll_append]
  refine ⟨?_, rfl, ?_, ?_⟩
  · rw [List.getElem?_append_left (Nat.lt_of_lt_of_eq hpos hlength.symm), hanswers,
      List.getElem?_map, List.getElem?_range' hpos]
    rfl
  · rw [List.getElem?_append_right (Nat.le_of_eq hlength), hlength, Nat.sub_self]
    exact congrArg (fun id => some (Except.ok id)) hnext
  · rw [← hnext]
    exact Definitions.get?_register _ (nominal "B" []).definition

/-- **More declarations than numbers**: of one more class than there are words of 32 bits, the last
one gets the number of the first one, which is then found no more. -/
theorem not_declared_of_runAll :
    (runAll .empty .empty
        (List.replicate UInt32.size (nominal "A" []) ++ [nominal "B" []])).1[0]? = some (.ok ⟨2⟩) ∧
      (runAll .empty .empty [nominal "A" []]).2.get? ⟨2⟩ = some (nominal "A" []).definition ∧
      (runAll .empty .empty
        (List.replicate UInt32.size (nominal "A" []) ++ [nominal "B" []])).1[UInt32.size]? =
          some (.ok ⟨2⟩) ∧
      (runAll .empty .empty
        (List.replicate UInt32.size (nominal "A" []) ++ [nominal "B" []])).2.get? ⟨2⟩ =
          some (nominal "B" []).definition :=
  runAll_nominal_wraps (by decide) (by decide)

end Declaration

end VariadicGenerics

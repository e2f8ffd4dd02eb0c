import VariadicGenerics.Checker
import VariadicGenerics.Proofs.BlamedPositions
import VariadicGenerics.Proofs.Splicing

/-!
# Blamed arguments

The binder blames a position of the flattened arguments, and a failure is about an argument as it
was written. Between the two stands the table of origins. It puts down one block after another: an
argument has a block with as many positions as it contributes elements, none if it is an empty tuple
that is spread.

There are three uses of written arguments: a call of one signature, a class with type arguments, and
an alias with type arguments. Each of them flattens its arguments, which may fail for one of them,
and binds what they contribute, unless there is nothing to bind to.

The blocks of different arguments have no position in common, so that a position of the flattened
arguments belongs to one argument. The table of origins is determined by the lengths of the blocks
alone, which is why one account of it does for calls, classes and aliases.

A use fails in one of two ways. Flattening fails for the first argument that contributes nothing,
whatever stands behind it, or the binder refuses a position, and the argument is the one whose block
has this position.

## Main results

* `FlatArguments.origin_ofBlocks_eq_some_iff`: what the table of origins holds.
* `Use.Binds.result_eq_error`: a use fails as the binder does.
* `Use.faults_of_result`: why an argument of a use is blamed.
* `Use.blamesRight`: the three together.
-/

namespace VariadicGenerics

namespace Build

variable {ε ε' α β : Type}

/-- A sequence fails as the first of its parts that does. -/
theorem bind_eq_error_iff {x : Build ε α} {f : α → Build ε β} {e : ε} :
    (x >>= f).result = .error e ↔
      x.result = .error e ∨ ∃ a, x.result = .ok a ∧ (f a).result = .error e := by
  rw [result_bind]
  cases x.result <;> simp [bind, Except.bind]

/-- A failure in other words is a failure. -/
theorem mapError_eq_error_iff {g : ε → ε'} {x : Build ε α} {e : ε'} :
    (x.mapError g).result = .error e ↔ ∃ e', x.result = .error e' ∧ g e' = e := by
  rw [result_mapError]
  cases x.result <;> simp [Except.mapError]

/-- A failure that is put into words that blame no argument blames none. -/
theorem mapError_ne_blaming {g : ε → ArgumentFailure} {x : Build ε α} {f : BindFailure} {k : Nat}
    (hg : ∀ e, (g e).argument = none) : (x.mapError g).result ≠ .error ⟨f, some k⟩ := by
  intro h
  obtain ⟨e, -, heq⟩ := mapError_eq_error_iff.mp h
  have hnone := hg e
  rw [heq] at hnone
  cases hnone

end Build

namespace FlatArguments

variable {blocks rest : List (List Ty)} {block : List Ty} {index i j k m : Nat}
variable {f : BindFailure} {e : ArgumentFailure} {flat : FlatArguments}

/-! ### Blocks -/

/-- A position of all elements lies in the block with number `k`. -/
def InBlock (blocks : List (List Ty)) (k j : Nat) : Prop :=
  ∃ before block after, blocks = before ++ block :: after ∧ before.length = k ∧
    before.flatten.length ≤ j ∧ j < before.flatten.length + block.length

/-- Without blocks no position lies in one. -/
theorem not_inBlock_nil : ¬ InBlock [] k j := by
  rintro ⟨before, block, after, heq, -⟩
  exact absurd heq.symm (by simp)

/-- A position lies in the first block, or is counted from its end. -/
theorem inBlock_cons_iff :
    InBlock (block :: rest) k j ↔
      k = 0 ∧ j < block.length ∨
        ∃ i, k = i + 1 ∧ block.length ≤ j ∧ InBlock rest i (j - block.length) := by
  constructor
  · rintro ⟨before, here, after, heq, rfl, hle, hlt⟩
    cases before with
    | nil =>
        cases heq
        exact .inl ⟨rfl, by simpa using hlt⟩
    | cons first before =>
        cases heq
        rw [List.flatten_cons, List.length_append] at hle hlt
        exact .inr ⟨before.length, rfl, by omega, before, here, after, rfl, rfl, by omega, by omega⟩
  · rintro (⟨rfl, hlt⟩ | ⟨i, rfl, hle, before, here, after, rfl, rfl, hle', hlt⟩)
    · exact ⟨[], block, rest, rfl, rfl, Nat.zero_le _, by simpa using hlt⟩
    · refine ⟨block :: before, here, after, rfl, rfl, ?_, ?_⟩ <;>
        rw [List.flatten_cons, List.length_append] <;> omega

/-- The number of a block is below the number of blocks. -/
theorem InBlock.lt_length (h : InBlock blocks k j) : k < blocks.length := by
  obtain ⟨before, block, after, rfl, rfl, -⟩ := h
  simp

/-- Every position lies in a block. -/
theorem exists_inBlock (h : j < blocks.flatten.length) : ∃ k, InBlock blocks k j := by
  induction blocks generalizing j with
  | nil => exact absurd h (Nat.not_lt_zero j)
  | cons block rest ih =>
      rw [List.flatten_cons, List.length_append] at h
      by_cases hlt : j < block.length
      · exact ⟨0, inBlock_cons_iff.mpr (.inl ⟨rfl, hlt⟩)⟩
      · obtain ⟨k, hk⟩ := ih (j := j - block.length) (by omega)
        exact ⟨k + 1, inBlock_cons_iff.mpr (.inr ⟨k, rfl, Nat.le_of_not_lt hlt, hk⟩)⟩

/-- Flattened arguments, by the blocks that they contribute, the first being the one at `index`. -/
def ofBlocks : Nat → List (List Ty) → FlatArguments
  | _, [] => nil
  | index, block :: rest => cons index block (ofBlocks (index + 1) rest)

/-- The elements of all blocks are in one list. -/
theorem elements_ofBlocks (index : Nat) (blocks : List (List Ty)) :
    (ofBlocks index blocks).elements = blocks.flatten := by
  induction blocks generalizing index with
  | nil => rfl
  | cons block rest ih => rw [ofBlocks, cons, ih, List.flatten_cons]

/-- **What the table of origins holds**: for every position the block that it lies in. -/
theorem origin_ofBlocks_eq_some_iff :
    (ofBlocks index blocks).origin[j]? = some m ↔ ∃ k, m = index + k ∧ InBlock blocks k j := by
  induction blocks generalizing index j with
  | nil =>
      refine iff_of_false (by simp [ofBlocks, nil]) ?_
      rintro ⟨k, -, h⟩
      exact not_inBlock_nil h
  | cons block rest ih =>
      rw [ofBlocks, cons]
      simp only [inBlock_cons_iff]
      by_cases hlt : j < block.length
      · rw [List.getElem?_append_left (by simpa using hlt), List.getElem?_replicate_of_lt hlt]
        constructor
        · rintro ⟨⟩
          exact ⟨0, rfl, .inl ⟨rfl, hlt⟩⟩
        · rintro ⟨k, rfl, ⟨rfl, -⟩ | ⟨i, -, hle, -⟩⟩
          · rfl
          · exact absurd hlt (Nat.not_lt_of_le hle)
      · rw [List.getElem?_append_right (by simpa using hlt), List.length_replicate, ih]
        constructor
        · rintro ⟨k, rfl, h⟩
          exact ⟨k + 1, by omega, .inr ⟨k, rfl, Nat.le_of_not_lt hlt, h⟩⟩
        · rintro ⟨k, rfl, ⟨-, hlt'⟩ | ⟨i, rfl, -, h⟩⟩
          · exact absurd hlt' hlt
          · exact ⟨i, by omega, h⟩

/-- The table of origins names the block of a position. -/
theorem InBlock.origin (h : InBlock blocks k j) : (ofBlocks 0 blocks).origin[j]? = some k :=
  origin_ofBlocks_eq_some_iff.mpr ⟨k, (Nat.zero_add k).symm, h⟩

/-- A position lies in one block only. -/
theorem InBlock.unique (h : InBlock blocks i j) (h' : InBlock blocks k j) : i = k :=
  Option.some.inj (h.origin.symm.trans h'.origin)

/-- **The blame for a position is put on the argument whose block it lies in.** -/
theorem blame_ofBlocks_eq_iff :
    (ofBlocks 0 blocks).blame e = ⟨f, some k⟩ ↔ ∃ j, e = ⟨f, some j⟩ ∧ InBlock blocks k j := by
  constructor
  · intro h
    obtain ⟨failure, argument⟩ := e
    obtain ⟨rfl, hargument⟩ := ArgumentFailure.mk.inj h
    obtain ⟨j, rfl, horigin⟩ := Option.bind_eq_some_iff.mp hargument
    obtain ⟨k', rfl, hblock⟩ := origin_ofBlocks_eq_some_iff.mp horigin
    exact ⟨j, rfl, (Nat.zero_add k').symm ▸ hblock⟩
  · rintro ⟨j, rfl, h⟩
    exact congrArg (ArgumentFailure.mk f) h.origin

/-! ### Flattening -/

/-- Put together what the written arguments contribute, the first being the one at `index`. -/
def collect : Nat → List (Except BindFailure (List Ty)) → Except ArgumentFailure FlatArguments
  | _, [] => .ok nil
  | index, contribution :: rest => do
    let elements ← contribution.mapError (.blaming index)
    let rest ← collect (index + 1) rest
    return cons index elements rest

/-- The arguments of a call are put together from what each contributes. -/
theorem result_flattenCall (index : Nat) (args : List CallArgument) :
    (flattenCall index args).result = collect index (args.map fun arg => arg.elements.result) := by
  induction args generalizing index with
  | nil => rfl
  | cons arg rest ih =>
      rw [flattenCall, List.map_cons, collect]
      simp only [Build.result_bind, Build.result_mapError, ih]
      rfl

/-- What each of several type arguments contributes. -/
def typeContributions (args : List Ty) : List (Except BindFailure (List Ty)) :=
  args.map fun arg => (typeArgumentElements arg).result

/-- Type arguments are put together from what each contributes. -/
theorem result_normalizeEach (index : Nat) (args : List Ty) :
    (normalizeEach index args).result = collect index (typeContributions args) := by
  induction args generalizing index with
  | nil => rfl
  | cons arg rest ih =>
      rw [normalizeEach, typeContributions, List.map_cons, collect, typeArgumentElements]
      simp only [Build.result_bind, Build.result_mapError, ih]
      cases (Construct.normalizeList [arg]).result <;> rfl

/-- The argument at `k` does not contribute, for the reason `f`, and the ones before it do. -/
def FirstFails (contributions : List (Except BindFailure (List Ty))) (k : Nat) (f : BindFailure) :
    Prop :=
  ∃ (before : List (List Ty)) (after : List (Except BindFailure (List Ty))),
    contributions = before.map .ok ++ .error f :: after ∧ before.length = k

variable {contributions : List (Except BindFailure (List Ty))} {args : List Ty}

/-- The argument that fails is one of the arguments. -/
theorem FirstFails.lt_length (h : FirstFails contributions k f) : k < contributions.length := by
  obtain ⟨before, after, rfl, rfl⟩ := h
  simp

/-- Flattening succeeds when every argument contributes a block. -/
theorem collect_eq_ok_iff :
    collect index contributions = .ok flat ↔
      ∃ blocks : List (List Ty), contributions = blocks.map .ok ∧ flat = ofBlocks index blocks := by
  induction contributions generalizing index flat with
  | nil =>
      constructor
      · rintro ⟨⟩
        exact ⟨[], rfl, rfl⟩
      · rintro ⟨blocks, heq, rfl⟩
        obtain rfl := List.map_eq_nil_iff.mp heq.symm
        rfl
  | cons contribution rest ih =>
      rw [collect]
      cases contribution with
      | error f =>
          refine iff_of_false nofun ?_
          rintro ⟨blocks, heq, -⟩
          cases blocks <;> cases heq
      | ok block =>
          constructor
          · intro h
            cases hrest : collect (index + 1) rest with
            | error e =>
                rw [hrest] at h
                cases h
            | ok others =>
                rw [hrest] at h
                obtain ⟨blocks, rfl, rfl⟩ := ih.mp hrest
                exact ⟨block :: blocks, rfl, (Except.ok.inj h).symm⟩
          · rintro ⟨blocks, heq, rfl⟩
            obtain ⟨first, blocks, rfl, hfirst, hrest⟩ := List.map_eq_cons_iff.mp heq.symm
            cases hfirst
            rw [ih.mpr ⟨blocks, hrest.symm, rfl⟩]
            rfl

/-- Flattening fails for the first argument that does not contribute. -/
theorem firstFails_of_collect (h : collect index contributions = .error e) :
    ∃ k f, e = .blaming (index + k) f ∧ FirstFails contributions k f := by
  induction contributions generalizing index with
  | nil => cases h
  | cons contribution rest ih =>
      rw [collect] at h
      cases contribution with
      | error f => exact ⟨0, f, (Except.error.inj h).symm, [], rest, rfl, rfl⟩
      | ok block =>
          cases hrest : collect (index + 1) rest with
          | ok others =>
              rw [hrest] at h
              cases h
          | error e' =>
              rw [hrest] at h
              obtain rfl := Except.error.inj h
              obtain ⟨k, f, rfl, before, after, rfl, hlength⟩ := ih hrest
              refine ⟨k + 1, f, ?_, block :: before, after, rfl, congrArg Nat.succ hlength⟩
              rw [Nat.add_right_comm, Nat.add_assoc]

/-- A failure while arguments are put together blames the first argument that does not contribute.
-/
theorem firstFails_of_collect_zero (h : collect 0 contributions = .error ⟨f, some k⟩) :
    FirstFails contributions k f := by
  obtain ⟨k', f', heq, hfirst⟩ := firstFails_of_collect h
  cases heq
  rwa [Nat.zero_add]

/-- Blocks whose elements may stand in one list. -/
def StandTogether (blocks : List (List Ty)) : Prop :=
  ∃ normal, (Construct.normalizeList blocks.flatten).result = .ok normal

/-- Type arguments that all contribute, and stand together, are flattened. -/
theorem ofTypeArguments_eq_ok_iff :
    (ofTypeArguments args).result = .ok flat ↔
      ∃ blocks : List (List Ty), typeContributions args = blocks.map .ok ∧
        StandTogether blocks ∧ flat = ofBlocks 0 blocks := by
  simp only [ofTypeArguments, Build.bind_eq_ok_iff, Build.mapError_eq_ok_iff, result_normalizeEach,
    collect_eq_ok_iff]
  constructor
  · rintro ⟨_, ⟨blocks, hblocks, rfl⟩, normal, hnormal, heq⟩
    rw [elements_ofBlocks] at hnormal
    exact ⟨blocks, hblocks, ⟨normal, hnormal⟩, (Except.ok.inj heq).symm⟩
  · rintro ⟨blocks, hblocks, ⟨normal, hnormal⟩, rfl⟩
    rw [← elements_ofBlocks 0] at hnormal
    exact ⟨_, ⟨blocks, hblocks, rfl⟩, normal, hnormal, rfl⟩

/-- A type argument is blamed for not being flattened when it does not contribute. -/
theorem firstFails_of_ofTypeArguments (h : (ofTypeArguments args).result = .error ⟨f, some k⟩) :
    FirstFails (typeContributions args) k f := by
  rw [ofTypeArguments, Build.bind_eq_error_iff, result_normalizeEach] at h
  rcases h with h | ⟨flat, -, h⟩
  · exact firstFails_of_collect_zero h
  · rcases Build.bind_eq_error_iff.mp h with h | ⟨_, -, h⟩
    · exact absurd h (Build.mapError_ne_blaming fun _ => rfl)
    · cases h

/-- Binding fails for an argument when the binder fails at a position of its block. -/
theorem bind_ofBlocks_eq_error_iff {vars : Variables} {owned : List VarId} {params : List Ty} :
    ((ofBlocks 0 blocks).bind vars owned params).result = .error ⟨f, some k⟩ ↔
      ∃ j, (Binder.bindLists vars owned params blocks.flatten).result = .error ⟨f, some j⟩ ∧
        InBlock blocks k j := by
  rw [FlatArguments.bind, Build.mapError_eq_error_iff, elements_ofBlocks]
  constructor
  · rintro ⟨e, he, hblame⟩
    obtain ⟨j, rfl, hblock⟩ := blame_ofBlocks_eq_iff.mp hblame
    exact ⟨j, he, hblock⟩
  · rintro ⟨j, he, hblock⟩
    exact ⟨_, he, blame_ofBlocks_eq_iff.mpr ⟨j, rfl, hblock⟩⟩

end FlatArguments

/-! ### Uses -/

/-- Arguments as they are written, and what they are for. -/
inductive Use where
  /-- The arguments of a call, for one signature. -/
  | call (s : Signature) (args : List CallArgument)
  /-- The type arguments of a class, or of `Tuple`. -/
  | application (d : DefId) (definition : Definition) (args : List TypeArgument)
  /-- The type arguments of an alias. -/
  | expansion (definition : Definition) (args : List TypeArgument)

namespace Use

open FlatArguments

/-- Where the arguments are written. -/
def spans : Use → List Span
  | call _ args => args.map CallArgument.span
  | application _ _ args | expansion _ args => args.map TypeArgument.span

/-- What each argument contributes. -/
def contributions : Use → List (Except BindFailure (List Ty))
  | call _ args => args.map fun arg => arg.elements.result
  | application _ _ args | expansion _ args => typeContributions (args.map TypeArgument.type)

/-- The type of a use, or its failure. -/
def result (c : Checking) : Use → Except ArgumentFailure Ty
  | call s args =>
    (s.resolve c.vars c.options.maxInstantiationDepth args).result.map CallResolution.returns
  | application d definition args =>
    (definition.apply c.vars d (args.map TypeArgument.type)).result
  | expansion definition args =>
    (definition.expand c.vars c.options.maxInstantiationDepth (args.map TypeArgument.type)).result

/-- A use comes to binding the elements of its blocks to parameters. `Tuple`, an alias without a
body and an alias without arguments never do. -/
inductive Binds (c : Checking) : Use → List VarId → List Ty → List (List Ty) → Prop
  | call {s : Signature} {args : List CallArgument} {params : List Ty} {blocks : List (List Ty)}
      (params_eq : s.callParameters.result = .ok params)
      (contributes : (call s args).contributions = blocks.map .ok) :
      Binds c (call s args) s.typeParams params blocks
  | application {d : DefId} {definition : Definition} {args : List TypeArgument}
      {blocks : List (List Ty)} (not_tuple : definition.content ≠ .tuple)
      (contributes : (application d definition args).contributions = blocks.map .ok)
      (together : StandTogether blocks) :
      Binds c (application d definition args) definition.typeParams
        (definition.typeParams.map c.vars.parameter) blocks
  | expansion {definition : Definition} {args : List TypeArgument} {body : Ty}
      {blocks : List (List Ty)} (body_eq : definition.body? = some body) (written : args ≠ [])
      (contributes : (expansion definition args).contributions = blocks.map .ok)
      (together : StandTogether blocks) :
      Binds c (expansion definition args) definition.typeParams
        (definition.typeParams.map c.vars.parameter) blocks

/-- Why an argument is blamed: it does not contribute, as those before it do, or the binder fails at
a position of its block. -/
inductive Faults (c : Checking) (use : Use) (k : Nat) (f : BindFailure) : Prop
  | argument (first : FirstFails use.contributions k f) : Faults c use k f
  | element {owned : List VarId} {params : List Ty} {blocks : List (List Ty)} {j : Nat}
      (binds : use.Binds c owned params blocks)
      (fails : (Binder.bindLists c.vars owned params blocks.flatten).result = .error ⟨f, some j⟩)
      (in_block : InBlock blocks k j) : Faults c use k f

variable {c : Checking} {use : Use} {owned : List VarId} {params : List Ty}
variable {blocks : List (List Ty)} {f : BindFailure} {e : ArgumentFailure} {k j : Nat}

/-- Every argument that is written contributes something, or fails to. -/
theorem length_contributions (use : Use) : use.contributions.length = use.spans.length := by
  cases use <;> simp [contributions, typeContributions, spans]

/-- There is one block for each argument that is written. -/
theorem Binds.length_eq (h : use.Binds c owned params blocks) :
    blocks.length = use.spans.length := by
  rw [← length_contributions]
  cases h with
  | call _ contributes => rw [contributes, List.length_map]
  | application _ contributes _ => rw [contributes, List.length_map]
  | expansion _ _ contributes _ => rw [contributes, List.length_map]

/-- An argument that is blamed is one of those that are written. -/
theorem Faults.lt_length (h : use.Faults c k f) : k < use.spans.length := by
  cases h with
  | argument first => exact length_contributions use ▸ first.lt_length
  | element binds _ in_block => exact binds.length_eq ▸ in_block.lt_length

/-- All classes but `Tuple` bind their arguments. -/
theorem apply_of_content_ne_tuple {definition : Definition} (h : definition.content ≠ .tuple)
    (vars : Variables) (d : DefId) (args : List Ty) :
    definition.apply vars d args = (do
      let flat ← ofTypeArguments args
      let params ← parameterList vars definition.typeParams
      let _ ← flat.bind vars definition.typeParams params
      .make (.app d flat.elements)) := by
  rw [Definition.apply]
  cases hcontent : definition.content with
  | tuple => exact absurd hcontent h
  | nominal | typeAlias | function => rfl

/-- A failure of the binder is passed on with the position translated into an argument. -/
theorem result_bind_ofBlocks
    (h : (Binder.bindLists c.vars owned params blocks.flatten).result = .error e) :
    ((ofBlocks 0 blocks).bind c.vars owned params).result =
      .error ((ofBlocks 0 blocks).blame e) := by
  rw [FlatArguments.bind, elements_ofBlocks, Build.result_mapError, h]
  rfl

/-- Type arguments that contribute and stand together fail where the binder does. -/
theorem result_bind_typeArguments {α : Type} {args : List Ty}
    (next : FlatArguments → Environment → Build ArgumentFailure α)
    (contributes : typeContributions args = blocks.map .ok) (together : StandTogether blocks)
    (h : (Binder.bindLists c.vars owned (owned.map c.vars.parameter) blocks.flatten).result =
      .error e) :
    (do
      let flat ← ofTypeArguments args
      let params ← parameterList c.vars owned
      let env ← flat.bind c.vars owned params
      next flat env : Build ArgumentFailure α).result = .error ((ofBlocks 0 blocks).blame e) := by
  have hflat := ofTypeArguments_eq_ok_iff.mpr ⟨blocks, contributes, together, rfl⟩
  have hparams : (parameterList c.vars owned : Build ArgumentFailure (List Ty)).result =
      .ok (owned.map c.vars.parameter) := rfl
  refine Build.bind_eq_error_iff.mpr (.inr ⟨_, hflat, ?_⟩)
  refine Build.bind_eq_error_iff.mpr (.inr ⟨_, hparams, ?_⟩)
  exact Build.bind_eq_error_iff.mpr (.inl (result_bind_ofBlocks h))

/-- **A use that comes to binding fails as the binder does**, with the blame put on an argument. -/
theorem Binds.result_eq_error (binds : use.Binds c owned params blocks)
    (h : (Binder.bindLists c.vars owned params blocks.flatten).result = .error e) :
    use.result c = .error ((ofBlocks 0 blocks).blame e) := by
  cases binds with
  | @call s args params blocks params_eq contributes =>
      have hparams := Build.mapError_eq_ok_iff
        (f := (ArgumentFailure.ofConstruction : _ → ArgumentFailure)).mpr params_eq
      have hflat : (ofCall args).result = .ok (ofBlocks 0 blocks) := by
        rw [ofCall, result_flattenCall]
        exact collect_eq_ok_iff.mpr ⟨blocks, contributes, rfl⟩
      have hresolve : (s.resolve c.vars c.options.maxInstantiationDepth args).result =
          .error ((ofBlocks 0 blocks).blame e) := by
        refine Build.bind_eq_error_iff.mpr (.inr ⟨_, hparams, ?_⟩)
        refine Build.bind_eq_error_iff.mpr (.inr ⟨_, hflat, ?_⟩)
        exact Build.bind_eq_error_iff.mpr (.inl (result_bind_ofBlocks h))
      rw [result, hresolve]
      rfl
  | @application d definition args blocks not_tuple contributes together =>
      rw [result, apply_of_content_ne_tuple not_tuple]
      exact result_bind_typeArguments _ contributes together h
  | @expansion definition args body blocks body_eq written contributes together =>
      rw [result, Definition.expand, body_eq]
      refine Build.bind_eq_error_iff.mpr (.inl ?_)
      rw [aliasSubstitution.eq_2 _ _ _ (mt List.map_eq_nil_iff.mp written)]
      exact result_bind_typeArguments _ contributes together h

/-- Type arguments fail for one of them that does not contribute, or where the binder does. -/
theorem firstFails_or_exists_of_bind {α : Type} {args : List Ty}
    {next : FlatArguments → Environment → Build ArgumentFailure α}
    (hnext : ∀ flat env, ∃ a, (next flat env).result = .ok a)
    (h : (do
      let flat ← ofTypeArguments args
      let params ← parameterList c.vars owned
      let env ← flat.bind c.vars owned params
      next flat env : Build ArgumentFailure α).result = .error ⟨f, some k⟩) :
    FirstFails (typeContributions args) k f ∨ ∃ (blocks : List (List Ty)) (j : Nat),
      typeContributions args = blocks.map .ok ∧ StandTogether blocks ∧
        (Binder.bindLists c.vars owned (owned.map c.vars.parameter) blocks.flatten).result =
          .error ⟨f, some j⟩ ∧ InBlock blocks k j := by
  rcases Build.bind_eq_error_iff.mp h with h | ⟨flat, hflat, h⟩
  · exact .inl (firstFails_of_ofTypeArguments h)
  · obtain ⟨blocks, hblocks, htogether, rfl⟩ := ofTypeArguments_eq_ok_iff.mp hflat
    rcases Build.bind_eq_error_iff.mp h with h | ⟨params, hparams, h⟩
    · cases h
    · cases hparams
      rcases Build.bind_eq_error_iff.mp h with h | ⟨env, -, h⟩
      · obtain ⟨j, hj, hblock⟩ := bind_ofBlocks_eq_error_iff.mp h
        exact .inr ⟨blocks, j, hblocks, htogether, hj, hblock⟩
      · obtain ⟨a, ha⟩ := hnext (ofBlocks 0 blocks) env
        rw [ha] at h
        cases h

/-- What a call blames is at fault. -/
theorem faults_of_resolve {s : Signature} {args : List CallArgument}
    (h : (s.resolve c.vars c.options.maxInstantiationDepth args).result = .error ⟨f, some k⟩) :
    (call s args).Faults c k f := by
  rw [Signature.resolve] at h
  rcases Build.bind_eq_error_iff.mp h with h | ⟨params, hparams, h⟩
  · exact absurd h (Build.mapError_ne_blaming fun _ => rfl)
  rw [Build.mapError_eq_ok_iff] at hparams
  rcases Build.bind_eq_error_iff.mp h with h | ⟨flat, hflat, h⟩
  · rw [ofCall, result_flattenCall] at h
    exact .argument (firstFails_of_collect_zero h)
  rw [ofCall, result_flattenCall] at hflat
  obtain ⟨blocks, hblocks, rfl⟩ := collect_eq_ok_iff.mp hflat
  rcases Build.bind_eq_error_iff.mp h with h | ⟨env, -, h⟩
  · obtain ⟨j, hj, hblock⟩ := bind_ofBlocks_eq_error_iff.mp h
    exact .element (.call hparams hblocks) hj hblock
  rcases Build.bind_eq_error_iff.mp h with h | ⟨returns, -, h⟩
  · exact absurd h (Build.mapError_ne_blaming fun _ => rfl)
  · cases h

/-- What an application blames is at fault. -/
theorem faults_of_apply {d : DefId} {definition : Definition} {args : List TypeArgument}
    (h : (definition.apply c.vars d (args.map TypeArgument.type)).result = .error ⟨f, some k⟩) :
    (application d definition args).Faults c k f := by
  by_cases hcontent : definition.content = .tuple
  · rw [Definition.apply] at h
    simp only [hcontent] at h
    rcases Build.bind_eq_error_iff.mp h with h | ⟨flat, -, h⟩
    · exact .argument (firstFails_of_ofTypeArguments h)
    · exact absurd h (Build.mapError_ne_blaming fun _ => rfl)
  · rw [apply_of_content_ne_tuple hcontent] at h
    obtain hfirst | helement := firstFails_or_exists_of_bind (fun _ _ => ⟨_, rfl⟩) h
    · exact .argument hfirst
    · obtain ⟨blocks, j, hblocks, htogether, hj, hblock⟩ := helement
      exact .element (.application hcontent hblocks htogether) hj hblock

/-- What an expansion blames is at fault. -/
theorem faults_of_expand {definition : Definition} {args : List TypeArgument}
    (h : (definition.expand c.vars c.options.maxInstantiationDepth
      (args.map TypeArgument.type)).result = .error ⟨f, some k⟩) :
    (expansion definition args).Faults c k f := by
  rw [Definition.expand] at h
  cases hbody : definition.body? with
  | none =>
      rw [hbody] at h
      cases h
  | some body =>
      simp only [hbody] at h
      rcases Build.bind_eq_error_iff.mp h with h | ⟨s, -, h⟩
      · cases args with
        | nil => cases h
        | cons arg rest =>
            rw [List.map_cons, aliasSubstitution.eq_2 _ _ _ (List.cons_ne_nil _ _)] at h
            obtain hfirst | helement := firstFails_or_exists_of_bind (fun _ _ => ⟨_, rfl⟩) h
            · exact .argument hfirst
            · obtain ⟨blocks, j, hblocks, htogether, hj, hblock⟩ := helement
              exact .element (.expansion hbody (List.cons_ne_nil _ _) hblocks htogether) hj hblock
      · exact absurd h (Build.mapError_ne_blaming fun _ => rfl)

/-- **Why an argument is blamed.** -/
theorem faults_of_result (h : use.result c = .error ⟨f, some k⟩) : use.Faults c k f := by
  cases use with
  | call s args =>
      rw [result] at h
      cases hresolve : (s.resolve c.vars c.options.maxInstantiationDepth args).result with
      | ok r =>
          rw [hresolve] at h
          cases h
      | error e =>
          rw [hresolve] at h
          obtain rfl := Except.error.inj h
          exact faults_of_resolve hresolve
  | application d definition args => exact faults_of_apply h
  | expansion definition args => exact faults_of_expand h

/-- What the failures of a use say about its arguments. -/
structure BlamesRight (c : Checking) (use : Use) : Prop where
  /-- A position that the binder blames is one of the flattened list, and the argument there is the
  one that is refused. The failure of the use blames the only argument in whose block it lies. -/
  position : ∀ owned params blocks, use.Binds c owned params blocks → ∀ f j,
    (Binder.bindLists c.vars owned params blocks.flatten).result = .error ⟨f, some j⟩ →
      j < blocks.flatten.length ∧ Binder.Blames Binder.bindType params blocks.flatten j f ∧
        ∃ k, use.result c = .error ⟨f, some k⟩ ∧ ∀ i, InBlock blocks i j ↔ i = k
  /-- Where the binder blames no position, no argument is blamed. -/
  no_position : ∀ owned params blocks, use.Binds c owned params blocks → ∀ f,
    (Binder.bindLists c.vars owned params blocks.flatten).result = .error ⟨f, none⟩ →
      use.result c = .error ⟨f, none⟩
  /-- An argument that is blamed does not contribute, or the binder fails in its block. -/
  fault : ∀ f k, use.result c = .error ⟨f, some k⟩ → use.Faults c k f
  /-- An argument that is blamed is one of those that are written. -/
  index_lt : ∀ f k, use.result c = .error ⟨f, some k⟩ → k < use.spans.length

/-- **Every use blames its arguments rightly**: the position is one of the flattened list, and the
argument the one that it came from. -/
theorem blamesRight (c : Checking) (use : Use) : use.BlamesRight c where
  position owned params blocks hbinds f j hfails := by
    have hblames := Binder.blames_of_bindList (Binder.bindLists_eq_error_iff.mp hfails)
    obtain ⟨arg, harg⟩ := hblames.exists_getElem?
    have hlt := (List.getElem?_eq_some_iff.mp harg).1
    obtain ⟨k, hblock⟩ := exists_inBlock hlt
    refine ⟨hlt, hblames, k, ?_, fun i => ⟨fun h => h.unique hblock, fun h => h ▸ hblock⟩⟩
    rw [hbinds.result_eq_error hfails, blame_ofBlocks_eq_iff.mpr ⟨j, rfl, hblock⟩]
  no_position owned params blocks hbinds f hfails := hbinds.result_eq_error hfails
  fault f k h := faults_of_result h
  index_lt f k h := (faults_of_result h).lt_length

end Use

end VariadicGenerics

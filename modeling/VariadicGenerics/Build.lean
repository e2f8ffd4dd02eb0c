import VariadicGenerics.TypeExpr

/-!
# Building types

Types are kept in a table that holds each of them once and that can be asked for its size. So a
computation that builds types is a result, which may be a failure, together with the types it put
into the table, in order and also when it fails. Nothing that a computation answers depends on
the types recorded so far: `result` forgets them, and every step commutes with forgetting.

Proofs about answers look at `result` alone. The lemmas below turn a computation that is written in
steps into a chain of existence statements about results, and rewriting with them is how nearly
every proof about a constructor, a call or a site begins. The types made are what a test of the
table looks at; `Numbered` is where they come to matter again, since there each of them is an entry
of a table that others use as well.

## Main results

* `Build.result_bind`, `Build.bind_eq_ok_iff`: the result of a sequence is the sequence of the
  results.
-/

namespace VariadicGenerics

/-- A computation that may fail, and the types it put into the type table. -/
structure Build (ε α : Type) where
  result : Except ε α
  made : List Ty

namespace Build

variable {ε ε' α β γ : Type}

/-- Answer without building anything. -/
def ofExcept (result : Except ε α) : Build ε α := ⟨result, []⟩

/-- Fail without building anything. -/
def fail (e : ε) : Build ε α := ofExcept (.error e)

/-- Put a type into the table and answer it. -/
def make (t : Ty) : Build ε Ty := ⟨.ok t, [t]⟩

/-- Put a type into the table. -/
def note (t : Ty) : Build ε Unit := ⟨.ok (), [t]⟩

/-- Put several types into the table. -/
def noteAll (ts : List Ty) : Build ε Unit := ⟨.ok (), ts⟩

/-- Continue with the answer of the first computation; a failure ends the sequence, and what was
built before it stays in the table. -/
def andThen (x : Build ε α) (f : α → Build ε β) : Build ε β :=
  match x.result with
  | .ok a => ⟨(f a).result, x.made ++ (f a).made⟩
  | .error e => ⟨.error e, x.made⟩

instance : Monad (Build ε) where
  pure a := ofExcept (.ok a)
  bind := andThen

instance : MonadExceptOf ε (Build ε) where
  throw := fail
  tryCatch x handle :=
    match x.result with
    | .ok _ => x
    | .error e => ⟨(handle e).result, x.made ++ (handle e).made⟩

/-- Answer whether the computation failed, and never fail. -/
def attempt (x : Build ε α) : Build Empty (Except ε α) := ⟨.ok x.result, x.made⟩

/-- The answer of a computation that cannot fail. -/
def value (x : Build Empty α) : α :=
  match x.result with
  | .ok a => a

/-- The same computation with its failure put into other words. -/
def mapError (f : ε → ε') (x : Build ε α) : Build ε' α := ⟨x.result.mapError f, x.made⟩

/-! ### Forgetting what was built -/

/-- Two computations are equal when they answer the same and make the same types. -/
@[ext] theorem ext {x y : Build ε α} (result : x.result = y.result) (made : x.made = y.made) :
    x = y := by
  cases x; cases y; simp_all

/-- A computation that only answers does not fail. -/
@[simp] theorem result_pure (a : α) : (pure a : Build ε α).result = .ok a := rfl

/-- A failing computation fails with its reason. -/
@[simp] theorem result_fail (e : ε) : (fail e : Build ε α).result = .error e := rfl

/-- A failing computation answers nothing. -/
theorem fail_ne_ok {e : ε} {a : α} : (fail e : Build ε α).result ≠ .ok a := by
  intro h
  cases h

/-- A failure that is thrown is a failure. -/
@[simp] theorem result_throw (e : ε) : (throw e : Build ε α).result = .error e := rfl

/-- Making a type answers the type. -/
@[simp] theorem result_make (t : Ty) : (make t : Build ε Ty).result = .ok t := rfl

/-- Making a type answers that type and no other. -/
theorem make_eq_ok_iff {t u : Ty} : (make t : Build ε Ty).result = .ok u ↔ t = u :=
  ⟨Except.ok.inj, congrArg Except.ok⟩

/-- Noting a type cannot fail. -/
@[simp] theorem result_note (t : Ty) : (note t : Build ε Unit).result = .ok () := rfl

/-- Noting types cannot fail. -/
@[simp] theorem result_noteAll (ts : List Ty) : (noteAll ts : Build ε Unit).result = .ok () := rfl

/-- An outcome that is known already is the outcome of the computation. -/
@[simp] theorem result_ofExcept (r : Except ε α) : (ofExcept r).result = r := rfl

/-- An attempt answers the outcome of what is attempted. -/
@[simp] theorem value_attempt (x : Build ε α) : x.attempt.value = x.result := rfl

/-- Failures are rewritten one by one; answers stay. -/
@[simp] theorem result_mapError (f : ε → ε') (x : Build ε α) :
    (x.mapError f).result = x.result.mapError f := rfl

/-- Rewriting failures changes none of the answers. -/
theorem mapError_eq_ok_iff {f : ε → ε'} {x : Build ε α} {a : α} :
    (x.mapError f).result = .ok a ↔ x.result = .ok a := by
  rw [result_mapError]
  cases x.result with
  | error e => exact iff_of_false nofun nofun
  | ok b =>
      constructor <;>
        · intro h
          cases h
          rfl

/-- **Forgetting commutes with sequencing.** -/
@[simp] theorem result_bind (x : Build ε α) (f : α → Build ε β) :
    (x >>= f).result = x.result >>= fun a => (f a).result := by
  change (andThen x f).result = _
  unfold andThen
  cases x.result <;> rfl

/-- A sequence succeeds when each of its parts does. -/
theorem bind_eq_ok_iff {x : Build ε α} {f : α → Build ε β} {b : β} :
    (x >>= f).result = .ok b ↔ ∃ a, x.result = .ok a ∧ (f a).result = .ok b := by
  rw [result_bind]
  cases x.result <;> simp [bind, Except.bind]

/-- A function is applied to the answer. -/
@[simp] theorem result_map (f : α → β) (x : Build ε α) : (f <$> x).result = f <$> x.result := by
  change (andThen x _).result = _
  unfold andThen
  cases x.result <;> rfl

instance : LawfulMonad (Build ε) := LawfulMonad.mk' _
  (fun x => by
    change andThen x _ = x
    obtain ⟨result, made⟩ := x
    cases result <;> simp [andThen, ofExcept])
  (fun a f => by
    change andThen (ofExcept (.ok a)) f = f a
    simp [andThen, ofExcept])
  (fun x f g => by
    change andThen (andThen x f) g = andThen x fun a => andThen (f a) g
    obtain ⟨result, made⟩ := x
    cases result with
    | error e => simp [andThen]
    | ok a => cases h : (f a).result <;> simp [andThen, h])

end Build

end VariadicGenerics

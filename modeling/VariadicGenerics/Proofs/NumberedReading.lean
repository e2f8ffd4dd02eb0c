import VariadicGenerics.Numbered.Assignable
import VariadicGenerics.Numbered.Occurrence
import VariadicGenerics.Proofs.NumberedConstruction
import VariadicGenerics.Proofs.Occurrences

/-!
# Reading types by number

Collecting variables and checking assignability only read the table. The collector meets the numbers
of a type in the order in which it meets the parts of the type, and passes over a number exactly
where it passes over the part, since equal numbers are equal types.

The check is compared level by level. One level is given two checks for the levels below, one of
them by number, that answer for each other. Its rules look at the entries of both types, and at
equality of numbers in the trivial cases.

The collector is different, as what it has visited is a list of numbers here and of types there.
They stand for each other in order, and membership in one is membership in the other.

## Main results

* `Numbered.answers_mentions`: whether a type mentions a variable with a property.
* `Numbered.answers_isAssignable`: whether one type may be used in place of another.
-/

namespace VariadicGenerics

/-- A collector of numbers and a collector of types that are equally far. -/
structure CollectorStandsFor (t : TypeTable) (c : Collector TypeId) (c' : Collector) : Prop where
  visited : StandsFor t c.visited c'.visited
  found : c.found = c'.found

instance : Numbering (Collector TypeId) Collector where
  StandsFor := CollectorStandsFor
  mono hle h := ⟨Numbering.mono hle h.visited, h.found⟩

namespace Numbered

open Dialogue

variable {t t' : TypeTable} {id source target : TypeId} {ids : List TypeId}
  {ty source' target' : Ty} {types : List Ty}

/-! ### Variables -/

/-- The direct parts of a type. -/
theorem answers_children (h : StandsFor t id ty) : Answers t (children id) ty.children := by
  refine (answers_lookup h).bind fun t' entry hle _ hentry => ?_
  cases hentry with
  | app d parts => exact answers_list parts
  | union parts => exact answers_list parts
  | unboundedTuple part => exact .pure (.cons part .nil)
  | unpack part => exact .pure (.cons part .nil)
  | callable parts part =>
      refine (answers_list parts).bind fun t'' params hle' _ hparams => ?_
      exact .pure (List.rel_append hparams (.cons (Numbering.mono hle' part) .nil))
  | _ => exact .pure .nil

variable {c : Collector TypeId} {c' : Collector} {rest : List TypeId} {vs : List VarId}

/-- A variable is remembered on both sides. -/
theorem standsFor_record (h : StandsFor t c c') (v : VarId) :
    StandsFor t (c.record v) (c'.record v) := by
  unfold Collector.record
  rw [h.found]
  split
  · exact h
  · exact ⟨h.visited, rfl⟩

/-- A type that is entered and is no variable: its parts are visited in turn. -/
theorem visit_of_parts (h : ty ∉ c'.visited) (hsingle : ∀ v, ty ≠ .var v)
    (hvariadic : ∀ v, ty ≠ .variadic v) : c'.visit ty = (c'.enter ty).visitAll ty.children := by
  cases ty with
  | var v => exact absurd rfl (hsingle v)
  | variadic v => exact absurd rfl (hvariadic v)
  | app | union =>
      rw [Collector.visit, if_neg h]
      rfl
  | unboundedTuple | unpack =>
      rw [Collector.visit, if_neg h, Ty.children, Collector.visitAll, Collector.visitAll]
      rfl
  | callable =>
      rw [Collector.visit, if_neg h, Ty.children, Collector.visitAll_append, Collector.visitAll,
        Collector.visitAll]
      rfl
  | error | builtin | unknown | nominal | bare =>
      rw [Collector.visit, if_neg h, Ty.children, Collector.visitAll]
      · rfl
      all_goals simp

/-- From the number of a type on, a collector comes to `vs` if it does so from what it makes of the
type. -/
def CollectsFrom (ty : Ty) : Prop :=
  ∀ {t id c c' rest vs}, StandsFor t id ty → StandsFor t c c' →
    (∀ t' c, t ≤ t' → StandsFor t' c (c'.visit ty) → Answers t' (collect c rest) vs) →
      Answers t (collect c (id :: rest)) vs

/-- The variables of a list of parts, before those of the rest. -/
theorem collectsFrom_parts (hparts : ∀ ty ∈ types, CollectsFrom ty) (h : StandsFor t ids types)
    (hc : StandsFor t c c')
    (hrest : ∀ t' c, t ≤ t' → StandsFor t' c (c'.visitAll types) → Answers t' (collect c rest) vs) :
    Answers t (collect c (ids ++ rest)) vs := by
  induction ids generalizing t c c' types with
  | nil =>
      cases h
      exact hrest t c (le_refl t) hc
  | cons id others ih =>
      cases h with
      | cons head tail =>
          rw [List.forall_mem_cons] at hparts
          refine hparts.1 head hc fun t' c hle hc => ?_
          exact ih hparts.2 (Numbering.mono hle tail) hc fun t'' c hle' hc =>
            hrest t'' c (le_trans hle hle') (by rwa [Collector.visitAll])

/-- **The collector** goes through a type as through its number: it enters what it has not entered
before, remembers a variable, and goes on with the parts of everything else. -/
theorem collectsFrom (ty : Ty) : CollectsFrom ty := by
  induction ty using Ty.induction_children with
  | step ty ih =>
      intro t id c c' rest vs h hc hrest
      refine .of_room fun hroom => ?_
      have hvisited := mem_iff_of_standsFor hroom h hc.visited
      rw [collect]
      by_cases hmem : id ∈ c.visited
      · rw [if_pos hmem]
        refine hrest t c (le_refl t) ?_
        rwa [Collector.visit, if_pos (hvisited.mp hmem)]
      · rw [if_neg hmem]
        have hnew := mt hvisited.mpr hmem
        have henter : StandsFor t { c with visited := id :: c.visited } (c'.enter ty) :=
          ⟨.cons h hc.visited, hc.found⟩
        refine (answers_lookup h).bind fun t' entry hle _ hentry => ?_
        have henter := Numbering.mono hle henter
        have hgrown {t'' : TypeTable} (hle' : t' ≤ t'') := le_trans hle hle'
        have hchildren (hsingle : ∀ v, ty ≠ .var v) (hvariadic : ∀ v, ty ≠ .variadic v) :
            Answers t' (children id >>= fun parts =>
              collect { c with visited := id :: c.visited } (parts ++ rest)) vs := by
          refine (answers_children (Numbering.mono hle h)).bind fun t'' parts hle' _ hparts => ?_
          refine collectsFrom_parts ih hparts (Numbering.mono hle' henter) fun t₃ c hle₃ hc => ?_
          refine hrest t₃ c (le_trans (hgrown hle') hle₃) ?_
          rwa [visit_of_parts hnew hsingle hvariadic]
        cases hentry with
        | var v | variadic v =>
            refine hrest t' _ hle ?_
            rw [Collector.visit, if_neg hnew]
            exact standsFor_record henter v
        | _ => exact hchildren (by simp) (by simp)

/-- **Whether a type mentions a variable** with a property. -/
theorem answers_mentions (h : StandsFor t id ty) (p : VarId → Bool) :
    Answers t (mentions id p) (ty.mentions p) := by
  have hcollect : Answers t (collect ⟨[], []⟩ [id]) (ty.collectVars []) := by
    have hnew : StandsFor t (⟨[], []⟩ : Collector TypeId) (⟨[], []⟩ : Collector) := ⟨.nil, rfl⟩
    refine collectsFrom ty h hnew fun t' c _ hc => ?_
    rw [collect]
    exact .pure (Numbering.list_plain_iff.mpr hc.found)
  refine hcollect.bind fun t' vs _ _ hvs => ?_
  obtain rfl := Numbering.list_plain_iff.mp hvs
  exact .pure rfl

/-! ### Assignability -/

/-- A check of numbers that answers what a check of types does. -/
def Checks (next : Check) (next' : Ty → Ty → Bool) : Prop :=
  ∀ {t source target source' target'}, StandsFor t source source' → StandsFor t target target' →
    Answers t (next source target) (next' source' target')

variable {next : Check} {next' : Ty → Ty → Bool}

/-- A check that goes on only if the first one said yes. -/
theorem answers_and {x : Dialogue Bool} {y : Dialogue Bool} {b b' : Bool} (hx : Answers t x b)
    (hy : ∀ t', t ≤ t' → Answers t' y b') :
    Answers t (x >>= fun r => if r then y else pure false) (b && b') := by
  refine hx.bind fun t' r hle _ hr => ?_
  obtain rfl := hr
  cases r with
  | true => exact hy t' hle
  | false => exact .pure rfl

/-- A condition that two sides agree on. -/
theorem answers_ite {p : Prop} [Decidable p] {b b' : Bool} {y : Dialogue Bool} (hp : p ↔ b = true)
    (hy : Answers t y b') : Answers t (if p then y else pure false) (b && b') := by
  cases b with
  | true =>
      rw [if_pos (hp.mpr rfl)]
      exact hy
  | false =>
      rw [if_neg (mt hp.mp Bool.false_ne_true)]
      exact .pure rfl

/-- Consistency asks in both directions. -/
theorem answers_consistent (hnext : Checks next next') (h : StandsFor t source source')
    (h' : StandsFor t target target') :
    Answers t (consistent next source target)
      (next' source' target' && next' target' source') :=
  answers_and (hnext h h') fun _ hle => hnext (Numbering.mono hle h') (Numbering.mono hle h)

/-- Two list elements are consistent alike. -/
theorem answers_elementsConsistent (hnext : Checks next next') (h : StandsFor t source source')
    (h' : StandsFor t target target') :
    Answers t (elementsConsistent next source target)
      (source'.element.consistent next' target'.element) := by
  refine (answers_element h).bind fun t' element hle _ helement => ?_
  refine (answers_element (Numbering.mono hle h')).bind fun t'' element' hle' _ helement' => ?_
  have helement := Numbering.mono hle' helement
  generalize source'.element = source' at helement
  generalize target'.element = target' at helement'
  cases helement with
  | fixed h =>
      cases helement' with
      | fixed h' => exact answers_consistent hnext h h'
      | _ => exact .pure rfl
  | unbounded h =>
      cases helement' with
      | unbounded h' => exact answers_consistent hnext h h'
      | _ => exact .pure rfl
  | variadic v =>
      cases helement' with
      | variadic w => exact .pure rfl
      | _ => exact .pure rfl

/-- **Lists are consistent alike**, element by element. -/
theorem answers_listsConsistent (hnext : Checks next next') {targets : List TypeId}
    {targets' : List Ty} (h : StandsFor t ids types) (h' : StandsFor t targets targets') :
    Answers t (listsConsistent next ids targets) (Ty.listsConsistent next' types targets') := by
  have hlengths : ids.length = targets.length ↔ (types.length == targets'.length) = true := by
    rw [beq_iff_eq, List.Forall₂.length_eq h, List.Forall₂.length_eq h']
  refine answers_ite hlengths ?_
  exact Answers.allM (standsFor_zip h h')
    fun t' p p' _ hp => answers_elementsConsistent hnext hp.1 hp.2

/-- Types are compared by comparing their numbers. -/
theorem beq_of_standsFor (hroom : t.HasRoom) (h : StandsFor t source source')
    (h' : StandsFor t target target') : (source == target) = (source' == target') := by
  rw [Bool.eq_iff_iff, beq_iff_eq, beq_iff_eq]
  exact Numbering.Faithful.eq_iff hroom h h'

/-- What an element contributes is compared with a repeated type. -/
theorem answers_elementFits (hnext : Checks next next') (h : StandsFor t target target')
    (hitem : StandsFor t id ty) :
    Answers t (elementFits next target id) (Ty.elementFits next' target' ty.element) := by
  refine (answers_element hitem).bind fun t' element hle hroom helement => ?_
  have htarget := Numbering.mono hle h
  generalize ty.element = element' at helement
  cases helement with
  | fixed h => exact hnext h htarget
  | unbounded h => exact hnext h htarget
  | variadic v =>
      refine .pure ?_
      dsimp only [Ty.elementFits]
      rw [beq_of_standsFor hroom htarget (standsFor_any t'),
        beq_of_standsFor hroom htarget (standsFor_builtin t' .object)]
      rfl

/-- The pairs that are settled without a look at their parts are the same. -/
theorem triviallyAssignable_of_standsFor (hroom : t.HasRoom) (h : StandsFor t source source')
    (h' : StandsFor t target target') :
    triviallyAssignable source target = Ty.triviallyAssignable source' target' := by
  unfold triviallyAssignable Ty.triviallyAssignable
  rw [beq_of_standsFor hroom h h', beq_of_standsFor hroom h (standsFor_error t),
    beq_of_standsFor hroom h' (standsFor_error t), beq_of_standsFor hroom h (standsFor_any t),
    beq_of_standsFor hroom h' (standsFor_any t),
    beq_of_standsFor hroom h' (standsFor_builtin t .object),
    beq_of_standsFor hroom h (standsFor_builtin t .never)]

/-- A number that stands for a type has an entry. -/
theorem exists_of_standsFor {entry : Option TypeEntry} (h : StandsFor t entry ty) :
    ∃ stored, entry = some stored := by
  cases h <;> exact ⟨_, rfl⟩

/-- **One level of a check** of numbers. -/
theorem answers_assignableStep (hnext : Checks next next') (h : StandsFor t source source')
    (h' : StandsFor t target target') :
    Answers t (assignableStep next source target) (Ty.assignableStep next' source' target') := by
  refine (answers_lookup h).bind fun t' entry hle _ hentry => ?_
  refine (answers_lookup (Numbering.mono hle h')).bind fun t'' entry' hle' _ hentry' => ?_
  have hentry := Numbering.mono hle' hentry
  have hsource := Numbering.mono (le_trans hle hle') h
  have htarget := Numbering.mono (le_trans hle hle') h'
  -- A union among the targets is asked member by member, whatever the source.
  have hany {members : TypeListId} {types : List Ty} (hmembers : StandsFor t'' members types) :
      Answers t'' (list members >>= fun ids => ids.anyM fun member => next source member)
        (types.any fun member => next' source' member) := by
    refine (answers_list hmembers).bind fun t₃ ids hle₃ _ hids => ?_
    exact .anyM hids fun t₄ id ty hle₄ hid =>
      hnext (Numbering.mono (le_trans hle₃ hle₄) hsource) hid
  cases hentry with
  | union parts =>
      obtain ⟨stored, rfl⟩ := exists_of_standsFor hentry'
      refine (answers_list parts).bind fun t₃ ids hle₃ _ hids => ?_
      have hall := Answers.allM (p := fun member => next member target) hids
        fun t₄ id ty hle₄ hid => hnext hid (Numbering.mono (le_trans hle₃ hle₄) htarget)
      cases hentry' <;> exact hall
  | bare d =>
      cases hentry' with
      | union parts => exact hany parts
      | _ => exact .pure rfl
  | app d parts =>
      cases hentry' with
      | union parts => exact hany parts
      | app d' parts' =>
          refine answers_ite (beq_iff_eq (a := d) (b := d')).symm ?_
          refine (answers_list parts).bind fun t₃ xs hle₃ _ hxs => ?_
          refine (answers_list (Numbering.mono hle₃ parts')).bind fun t₄ ys hle₄ _ hys => ?_
          exact answers_listsConsistent hnext (Numbering.mono hle₄ hxs) hys
      | unboundedTuple part =>
          refine answers_ite (beq_iff_eq (a := d) (b := DefId.tuple)).symm ?_
          refine (answers_list parts).bind fun t₃ items hle₃ _ hitems => ?_
          exact .allM hitems fun t₄ item item' hle₄ hitem =>
            answers_elementFits hnext (Numbering.mono (le_trans hle₃ hle₄) part) hitem
      | _ => exact .pure rfl
  | unboundedTuple part =>
      cases hentry' with
      | union parts => exact hany parts
      | unboundedTuple part' => exact hnext part part'
      | _ => exact .pure rfl
  | callable parts part =>
      cases hentry' with
      | union parts => exact hany parts
      | callable parts' part' =>
          refine (answers_list parts).bind fun t₃ xs hle₃ _ hxs => ?_
          refine (answers_list (Numbering.mono hle₃ parts')).bind fun t₄ ys hle₄ _ hys => ?_
          have hlists := answers_listsConsistent hnext (Numbering.mono hle₄ hxs) hys
          exact answers_and hlists fun t₅ hle₅ =>
            hnext (Numbering.mono (le_trans hle₃ (le_trans hle₄ hle₅)) part)
              (Numbering.mono (le_trans hle₃ (le_trans hle₄ hle₅)) part')
      | _ => exact .pure rfl
  | _ =>
      cases hentry' with
      | union parts => exact hany parts
      | _ => exact .pure rfl

/-- **A check of numbers** answers what the check of their types does, for every depth. -/
theorem checks_assignableWithin (room : Nat) :
    Checks (assignableWithin room) (Ty.assignableWithin room) := by
  induction room with
  | zero => exact fun _ _ => .pure rfl
  | succ room ih =>
      intro t source target source' target' h h'
      refine .of_room fun hroom => ?_
      rw [assignableWithin, Ty.assignableWithin_succ, triviallyAssignable_of_standsFor hroom h h']
      cases Ty.triviallyAssignable source' target' with
      | true => exact .pure rfl
      | false => exact answers_assignableStep ih h h'

/-- **Whether one type may be used in place of another**, by number. -/
theorem answers_isAssignable (h : StandsFor t source source') (h' : StandsFor t target target') :
    Answers t (isAssignable source target) (source'.isAssignable target') :=
  checks_assignableWithin assignabilityDepthLimit h h'

end Numbered

end VariadicGenerics

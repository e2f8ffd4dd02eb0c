import VariadicGenerics.Proofs.InterningRuns
import VariadicGenerics.Proofs.Occurrences

/-!
# Type variables of shared types

In a type table the parts of types are numbers, and types share their parts: the unfolded type may
be far larger than the table. A collector that works on numbers enters every number once. So it
comes to its end in any table, even in one with a cycle, since there are only so many numbers.

The plain traversal enters a shared part again at every place where it is referred to, and ends only
where following parts ends. There the two find the same variables in the same order of first
occurrence. A number that is passed over was either left before, so that its variables are found, or
it is still being visited further up, and then it would be a part of itself.

The measure of a visit is the number of words that were not visited yet. It goes down whenever a
number is entered, and a number that was entered is passed over. So no assumption on the table is
needed for a visit to end.

The specification of a visit names the numbers that are still being visited further up. The number
at hand is a part of each of them, or a part of a part, and where following parts comes to an end
none of them can be met again.

## Main results

* `TypeTable.visit_spec`: what a visit finds and which numbers it finishes.
* `TypeTable.occurrences_of_idOf?`: the plain traversal of a number is the one of its type.
* `TypeTable.collects_occurrences`: types and numbers of types are collected by first occurrence.
-/

namespace VariadicGenerics

/-- The variable that an entry stands for. -/
def TypeEntry.var? : TypeEntry → Option VarId
  | .var v | .variadic v => some v
  | _ => none

namespace TypeTable

variable {t : TypeTable} {id : TypeId} {entry : TypeEntry} {ty : Ty} {v : VarId}

/-- The variable that a number stands for. -/
def varOf? (t : TypeTable) (id : TypeId) : Option VarId := (t.lookup id).bind TypeEntry.var?

/-- The numbers that a number leads to; a number that no type has leads nowhere. -/
def partsOf (t : TypeTable) (id : TypeId) : List TypeId :=
  match t.lookup id with
  | some entry => t.parts entry
  | none => []

/-- The variable of a number is that of its entry. -/
theorem varOf?_of_lookup (h : t.lookup id = some entry) : t.varOf? id = entry.var? := by
  rw [varOf?, h]
  rfl

/-- The numbers that a number leads to are those of its entry. -/
theorem partsOf_of_lookup (h : t.lookup id = some entry) : t.partsOf id = t.parts entry := by
  rw [partsOf, h]

/-- A part of a number is one of the numbers that it leads to. -/
theorem isPart_iff {part : TypeId} : t.IsPart part id ↔ part ∈ t.partsOf id := by
  cases h : t.lookup id with
  | none => simp [IsPart, partsOf, h]
  | some entry => simp [IsPart, partsOf, h]

/-! ### The collector -/

/-- The numbers entered so far, each of them once, and the variables found so far in order of first
occurrence. -/
structure Collector where
  visited : List TypeId
  found : List VarId
  nodup : visited.Nodup

namespace Collector

/-- The collector before it enters anything. -/
def start (found : List VarId) : Collector := ⟨[], found, List.nodup_nil⟩

/-- The collector after it entered a new number. -/
def enter (c : Collector) (id : TypeId) (h : id ∉ c.visited) : Collector :=
  ⟨id :: c.visited, c.found, List.nodup_cons.mpr ⟨h, c.nodup⟩⟩

/-- The collector after it met a variable. -/
def record (c : Collector) (v : VarId) : Collector :=
  { c with found := VariadicGenerics.Collector.remember c.found v }

/-- How many numbers it has not entered. -/
def unvisited (c : Collector) : Nat := maxWord + 1 - c.visited.length

/-- No more numbers are entered than there are words, since each is entered once. -/
theorem length_visited_le (c : Collector) : c.visited.length ≤ maxWord + 1 := by
  have hinj : Function.Injective fun id : TypeId => id.index.toNat := by
    intro a b hab
    exact congrArg TypeId.mk (UInt32.toNat_inj.mp hab)
  have hsubset : c.visited.map (fun id => id.index.toNat) ⊆ List.range (maxWord + 1) := by
    intro n hn
    obtain ⟨id, -, rfl⟩ := List.mem_map.mp hn
    exact List.mem_range.mpr id.index.toNat_lt
  have hlength := (List.Nodup.subperm (c.nodup.map hinj) hsubset).length_le
  rwa [List.length_map, List.length_range] at hlength

/-- Entering a number leaves fewer of them. -/
theorem unvisited_enter_lt (c : Collector) (h : id ∉ c.visited) :
    (c.enter id h).unvisited < c.unvisited := by
  have hlength := (c.enter id h).length_visited_le
  simp only [unvisited, enter, List.length_cons] at hlength ⊢
  omega

end Collector

mutual

/-- Collect from a number, unless it was entered before. -/
def visit (t : TypeTable) (c : Collector) (id : TypeId) :
    { c' : Collector // c'.unvisited ≤ c.unvisited } :=
  if h : id ∈ c.visited then ⟨c, Nat.le_refl _⟩
  else
    have hlt := c.unvisited_enter_lt h
    match t.varOf? id with
    | some v => ⟨(c.enter id h).record v, Nat.le_of_lt hlt⟩
    | none =>
      let parts := visitAll t (c.enter id h) (t.partsOf id)
      ⟨parts.1, Nat.le_trans parts.2 (Nat.le_of_lt hlt)⟩
termination_by (c.unvisited, 0)
decreasing_by exact Prod.Lex.left _ _ hlt

/-- Collect from the numbers of a list, from left to right. -/
def visitAll (t : TypeTable) (c : Collector) (ids : List TypeId) :
    { c' : Collector // c'.unvisited ≤ c.unvisited } :=
  match ids with
  | [] => ⟨c, Nat.le_refl _⟩
  | id :: rest =>
    let first := visit t c id
    have hle := first.2
    let others := visitAll t first.1 rest
    ⟨others.1, Nat.le_trans others.2 hle⟩
termination_by (c.unvisited, ids.length + 1)
decreasing_by
  · exact Prod.Lex.right _ (Nat.succ_pos _)
  · rw [Prod.lex_def]
    exact (Nat.lt_or_eq_of_le hle).imp_right fun heq => ⟨heq, Nat.lt_succ_self _⟩

end

/-- Append the variables of a number that are not yet in the list, by first occurrence. -/
def collectVars (t : TypeTable) (id : TypeId) (found : List VarId) : List VarId :=
  (t.visit (.start found) id).1.found

/-- Whether a number mentions a variable with a property. -/
def mentions (t : TypeTable) (id : TypeId) (p : VarId → Bool) : Bool :=
  (t.collectVars id []).any p

/-! ### The plain traversal -/

/-- Where following parts ends, parts are below what they are parts of. -/
instance (t : TypeTable) : WellFoundedRelation { id // Acc t.IsPart id } :=
  ⟨InvImage t.IsPart Subtype.val, ⟨fun id => InvImage.accessible Subtype.val id.2⟩⟩

/-- The variables of a number at every place where they occur, from left to right. A part is
traversed again wherever it is referred to. -/
def occurrences (t : TypeTable) (id : TypeId) (h : Acc t.IsPart id) : List VarId :=
  match t.varOf? id with
  | some v => [v]
  | none =>
    (t.partsOf id).attach.flatMap fun part =>
      t.occurrences part.1 (h.inv (isPart_iff.mpr part.2))
termination_by (⟨id, h⟩ : { id // Acc t.IsPart id })
decreasing_by exact isPart_iff.mpr part.2

/-- The variables of several numbers at every place where they occur, from left to right. -/
def occurrencesAll (t : TypeTable) (ids : List TypeId) (h : ∀ id ∈ ids, Acc t.IsPart id) :
    List VarId :=
  (ids.pmap t.occurrences h).flatten

/-- Following the parts of a number ends where following the number does. -/
theorem acc_of_mem_partsOf (h : Acc t.IsPart id) : ∀ part ∈ t.partsOf id, Acc t.IsPart part :=
  fun _ hpart => h.inv (isPart_iff.mpr hpart)

/-- A variable occurs in itself, once. -/
theorem occurrences_of_var (h : Acc t.IsPart id) (hv : t.varOf? id = some v) :
    t.occurrences id h = [v] := by
  rw [occurrences, hv]

/-- Other numbers mention what their parts mention. -/
theorem occurrences_of_parts (h : Acc t.IsPart id) (hv : t.varOf? id = none) :
    t.occurrences id h = t.occurrencesAll (t.partsOf id) (acc_of_mem_partsOf h) := by
  rw [occurrences, hv, occurrencesAll, List.pmap_eq_map_attach, List.flatMap_def]

/-- Where following parts ends, nothing is a part of itself, at any depth. -/
theorem not_transGen_self (h : Acc t.IsPart id) : ¬ Relation.TransGen t.IsPart id id := by
  replace h := acc_transGen_iff.mpr h
  induction h with
  | intro id _ ih => exact fun hself => ih id hself hself

/-! ### What a visit finds -/

variable {c c' : Collector} {ids pending : List TypeId} {found vs ws : List VarId}

open VariadicGenerics.Collector (remember mem_remember mem_foldl_remember foldl_remember_of_subset
  foldl_remember_eq)

/-- A number that was entered before is passed over. -/
theorem visit_of_mem (h : id ∈ c.visited) : (t.visit c id).1 = c := by
  rw [visit, dif_pos h]

/-- A variable that is entered is recorded. -/
theorem visit_of_var (h : id ∉ c.visited) (hv : t.varOf? id = some v) :
    (t.visit c id).1 = (c.enter id h).record v := by
  rw [visit, dif_neg h, hv]

/-- From any other number the traversal goes on to the parts. -/
theorem visit_of_parts (h : id ∉ c.visited) (hv : t.varOf? id = none) :
    (t.visit c id).1 = (t.visitAll (c.enter id h) (t.partsOf id)).1 := by
  rw [visit, dif_neg h, hv]

/-- Every number that was visited is finished, which means that its variables are found, or it is
one of the numbers that are `pending`. -/
def Finished (t : TypeTable) (c : Collector) (pending : List TypeId) : Prop :=
  ∀ x ∈ c.visited, x ∈ pending ∨ ∀ h : Acc t.IsPart x, ∀ v ∈ t.occurrences x h, v ∈ c.found

/-- What a visit that meets the variables `vs` makes of the variables found before. -/
structure Visited (t : TypeTable) (found vs : List VarId) (pending : List TypeId)
    (c : Collector) : Prop where
  found_eq : c.found = vs.foldl remember found
  finished : t.Finished c pending

/-- Two visits in a row meet what the one meets and then what the other does. -/
theorem Visited.append (h : t.Visited found vs pending c) (h' : t.Visited c.found ws pending c') :
    t.Visited found (vs ++ ws) pending c' :=
  ⟨by rw [h'.found_eq, h.found_eq, List.foldl_append], h'.finished⟩

/-- A number that is pending no longer once everything below it was visited. -/
theorem Visited.leave {hacc : Acc t.IsPart id}
    (h : t.Visited found (t.occurrences id hacc) (id :: pending) c) :
    t.Visited found (t.occurrences id hacc) pending c := by
  refine ⟨h.found_eq, fun x hx => ?_⟩
  rcases h.finished x hx with hmem | hfound
  · rcases List.mem_cons.mp hmem with rfl | hmem
    · refine .inr fun _ v hv => ?_
      rw [h.found_eq]
      exact mem_foldl_remember.mpr (.inr hv)
    · exact .inl hmem
  · exact .inr hfound

/-- A number that is entered is pending until its parts are finished. -/
theorem Finished.enter (hc : t.Finished c pending) (h : id ∉ c.visited) :
    t.Finished (c.enter id h) (id :: pending) := by
  intro x hx
  rcases List.mem_cons.mp hx with rfl | hx
  · exact .inl List.mem_cons_self
  · exact (hc x hx).imp_left (List.mem_cons_of_mem id)

/-- A variable that is met is recorded, and what was finished stays so. -/
theorem Finished.record (hc : t.Finished c pending) (v : VarId) :
    t.Visited c.found [v] pending (c.record v) := by
  refine ⟨rfl, fun x hx => (hc x hx).imp_right fun hfound hacc w hw => ?_⟩
  exact mem_remember.mpr (.inl (hfound hacc w hw))

/-- A visit of the numbers of a list in turn, when each of them can be visited. -/
theorem visitAll_spec (hacc : ∀ id ∈ ids, Acc t.IsPart id)
    (hparts : ∀ id (hid : id ∈ ids) (c : Collector), t.Finished c pending →
      t.Visited c.found (t.occurrences id (hacc id hid)) pending (t.visit c id).1)
    (c : Collector) (hc : t.Finished c pending) :
    t.Visited c.found (t.occurrencesAll ids hacc) pending (t.visitAll c ids).1 := by
  induction ids generalizing c with
  | nil =>
      rw [visitAll]
      exact ⟨rfl, hc⟩
  | cons id rest ih =>
      have head := hparts id List.mem_cons_self c hc
      have tail := ih (fun other hother => hacc other (List.mem_cons_of_mem id hother))
        (fun other hother => hparts other (List.mem_cons_of_mem id hother)) _ head.finished
      rw [visitAll]
      exact head.append tail

/-- **A visit remembers the variables of a number** in order of occurrence, and finishes the number,
which has to be below everything that is still pending. -/
theorem visit_spec (h : Acc t.IsPart id) (pending : List TypeId)
    (hpending : ∀ x ∈ pending, Relation.TransGen t.IsPart id x) (c : Collector)
    (hc : t.Finished c pending) :
    t.Visited c.found (t.occurrences id h) pending (t.visit c id).1 := by
  induction h generalizing pending c with
  | intro id hparts ih =>
      have hacc : Acc t.IsPart id := .intro id hparts
      by_cases hvisited : id ∈ c.visited
      · rw [visit_of_mem hvisited]
        -- A number is not below itself, so that one visited before is not pending.
        rcases hc id hvisited with hmem | hfound
        · exact absurd (hpending id hmem) (not_transGen_self hacc)
        · exact ⟨(foldl_remember_of_subset (hfound hacc)).symm, hc⟩
      · apply Visited.leave
        cases hv : t.varOf? id with
        | some v =>
            rw [occurrences_of_var hacc hv, visit_of_var hvisited hv]
            exact (hc.enter hvisited).record v
        | none =>
            rw [occurrences_of_parts hacc hv, visit_of_parts hvisited hv]
            refine visitAll_spec _ (fun part hpart c hc => ?_) _ (hc.enter hvisited)
            have hbelow : t.IsPart part id := isPart_iff.mpr hpart
            refine ih part hbelow _ (fun x hx => ?_) c hc
            rcases List.mem_cons.mp hx with rfl | hx
            · exact .single hbelow
            · exact .head hbelow (hpending x hx)

/-- **The collector agrees with the plain traversal** of numbers. -/
theorem collectVars_eq (h : Acc t.IsPart id) (found : List VarId) :
    t.collectVars id found = (t.occurrences id h).foldl remember found :=
  (visit_spec h [] (fun _ hx => absurd hx List.not_mem_nil) (.start found)
    (fun _ hx => absurd hx List.not_mem_nil)).found_eq

/-! ### Numbers of types -/

/-- The numbers in a list are those of the types that it stands for, one by one. -/
theorem forall₂_of_listIdOf? (hroom : t.HasRoom) {types : List Ty} {list : TypeListId}
    (h : t.listIdOf? types = some list) :
    List.Forall₂ (fun ty id => t.idOf? ty = some id) types (t.list list) := by
  obtain ⟨ids, hids, hlist⟩ := listIdOf?_eq_some_iff.mp h
  rw [list_of_listId? hroom hlist]
  exact idsOf?_eq_some_iff.mp hids

/-- The parts of the entry of a type are the numbers of its direct parts, in reading order. -/
theorem forall₂_parts (hroom : t.HasRoom) (h : t.entryOf? ty = some entry) :
    List.Forall₂ (fun ty id => t.idOf? ty = some id) ty.children (t.parts entry) := by
  cases ty with
  | app d args =>
      obtain ⟨list, hlist, rfl⟩ := entryOf?_app_iff.mp h
      simpa [parts, TypeEntry.lists, TypeEntry.ids, Ty.children] using
        forall₂_of_listIdOf? hroom hlist
  | union members =>
      obtain ⟨list, hlist, rfl⟩ := entryOf?_union_iff.mp h
      simpa [parts, TypeEntry.lists, TypeEntry.ids, Ty.children] using
        forall₂_of_listIdOf? hroom hlist
  | unboundedTuple element =>
      obtain ⟨id, hid, rfl⟩ := entryOf?_unboundedTuple_iff.mp h
      exact .cons hid .nil
  | unpack inner =>
      obtain ⟨id, hid, rfl⟩ := entryOf?_unpack_iff.mp h
      exact .cons hid .nil
  | callable params returns =>
      obtain ⟨list, id, hlist, hid, rfl⟩ := entryOf?_callable_iff.mp h
      have hparams := forall₂_of_listIdOf? hroom hlist
      simpa [parts, TypeEntry.lists, TypeEntry.ids, Ty.children] using
        List.rel_append hparams (.cons hid .nil)
  | error | builtin | nominal | bare | var | variadic =>
      obtain rfl := Option.some.inj h
      exact .nil
  | unknown => cases h

/-- The entry of a type tells whether the type is a variable. -/
theorem var?_of_entryOf? (h : t.entryOf? ty = some entry) :
    (∃ v, entry.var? = some v ∧ ty.occurrences = [v]) ∨
      entry.var? = none ∧ ty.occurrences = Ty.occurrencesAll ty.children := by
  rcases ty.occurrences_eq_children with ⟨v, rfl | rfl, hoccurs⟩ | hoccurs
  · obtain rfl := Option.some.inj h
    exact .inl ⟨v, rfl, hoccurs⟩
  · obtain rfl := Option.some.inj h
    exact .inl ⟨v, rfl, hoccurs⟩
  · cases ty with
    | var v | variadic v =>
        obtain rfl := Option.some.inj h
        exact .inl ⟨v, rfl, by rw [Ty.occurrences]⟩
    | app d args =>
        obtain ⟨list, -, rfl⟩ := entryOf?_app_iff.mp h
        exact .inr ⟨rfl, hoccurs⟩
    | union members =>
        obtain ⟨list, -, rfl⟩ := entryOf?_union_iff.mp h
        exact .inr ⟨rfl, hoccurs⟩
    | unboundedTuple element =>
        obtain ⟨id, -, rfl⟩ := entryOf?_unboundedTuple_iff.mp h
        exact .inr ⟨rfl, hoccurs⟩
    | unpack inner =>
        obtain ⟨id, -, rfl⟩ := entryOf?_unpack_iff.mp h
        exact .inr ⟨rfl, hoccurs⟩
    | callable params returns =>
        obtain ⟨list, id, -, -, rfl⟩ := entryOf?_callable_iff.mp h
        exact .inr ⟨rfl, hoccurs⟩
    | error | builtin | nominal | bare =>
        obtain rfl := Option.some.inj h
        exact .inr ⟨rfl, hoccurs⟩
    | unknown => cases h

/-- The numbers of types mention what the types mention. -/
theorem occurrencesAll_of_forall₂ {types : List Ty} (hacc : ∀ id ∈ ids, Acc t.IsPart id)
    (hnumbers : List.Forall₂ (fun ty id => t.idOf? ty = some id) types ids)
    (hparts : ∀ ty ∈ types, ∀ id (h : Acc t.IsPart id), t.idOf? ty = some id →
      t.occurrences id h = ty.occurrences) :
    t.occurrencesAll ids hacc = Ty.occurrencesAll types := by
  induction hnumbers with
  | nil => rfl
  | @cons ty id types ids hid hrest ih =>
      rw [List.forall_mem_cons] at hparts
      have head := hparts.1 id (hacc id List.mem_cons_self) hid
      have tail := ih (fun id hmem => hacc id (List.mem_cons_of_mem _ hmem)) hparts.2
      rw [Ty.occurrencesAll, ← head, ← tail]
      rfl

/-- **The plain traversal of the number of a type** is the one of the type. -/
theorem occurrences_of_idOf? (hroom : t.HasRoom) (h : Acc t.IsPart id)
    (hid : t.idOf? ty = some id) : t.occurrences id h = ty.occurrences := by
  induction ty using Ty.induction_children generalizing id with
  | step ty ih =>
      obtain ⟨entry, hentry, hid⟩ := idOf?_eq_some_iff.mp hid
      have hlookup := lookup_of_entryId? hroom hid
      rcases var?_of_entryOf? hentry with ⟨v, hv, hoccurs⟩ | ⟨hv, hoccurs⟩
      · rw [occurrences_of_var h ((varOf?_of_lookup hlookup).trans hv), hoccurs]
      · rw [occurrences_of_parts h ((varOf?_of_lookup hlookup).trans hv), hoccurs]
        refine occurrencesAll_of_forall₂ _ ?_ fun u hu id h hid => ih u hu h hid
        rw [partsOf_of_lookup hlookup]
        exact forall₂_parts hroom hentry

/-! ### First occurrences -/

/-- **Collecting by first occurrence**: what a traversal meets and is not there yet is appended, in
the order in which it is met first, and a property is mentioned when something met has it. -/
structure CollectsFirst (met : List VarId) (collect : List VarId → List VarId)
    (mentions : (VarId → Bool) → Bool) : Prop where
  collect_eq : ∀ found, collect found = found ++ (met.filter fun v => v ∉ found).eraseDups
  mentions_iff : ∀ p, mentions p = true ↔ ∃ v ∈ met, p v = true

/-- Remembering one variable after another collects them by first occurrence. -/
theorem collectsFirst_of_remember {collect : List VarId → List VarId}
    (h : ∀ found, collect found = vs.foldl remember found) :
    CollectsFirst vs collect fun p => (collect []).any p := by
  refine ⟨fun found => by rw [h, foldl_remember_eq], fun p => ?_⟩
  simp [h, mem_foldl_remember]

/-- **A type is collected by first occurrence**, whether its parts are passed over because they are
equal or because they have the same number. The collector that remembers the parts agrees with the
traversal that enters them again, for all types, and for all numbers of a table where following
parts ends; and numbers of types are traversed as the types are. -/
theorem collects_occurrences (ty : Ty) (h : Acc t.IsPart id) :
    CollectsFirst ty.occurrences ty.collectVars ty.mentions ∧
      CollectsFirst (t.occurrences id h) (t.collectVars id) (t.mentions id) ∧
      (t.HasRoom → t.idOf? ty = some id → t.occurrences id h = ty.occurrences) :=
  ⟨collectsFirst_of_remember ty.collectVars_eq, collectsFirst_of_remember (collectVars_eq h),
    fun hroom hid => occurrences_of_idOf? hroom h hid⟩

/-- The parts of `Callable[[Tuple[T, *Ts], Tuple[T, *Ts]], Tuple[T, *Ts]]` are one number, which the
plain traversal enters three times. -/
theorem collects_occurrences_callable :
    let row := Ty.app .tuple [.var ⟨0⟩, .unpack (.variadic ⟨1⟩)]
    let ty := Ty.callable [row, row] row
    let added := empty.add ty
    added.2.HasRoom ∧ added.2.idOf? ty = some added.1 ∧
      ∃ h : Acc added.2.IsPart added.1,
        CollectsFirst ty.occurrences ty.collectVars ty.mentions ∧
          CollectsFirst (added.2.occurrences added.1 h) (added.2.collectVars added.1)
            (added.2.mentions added.1) ∧
          added.2.occurrences added.1 h = [⟨0⟩, ⟨1⟩, ⟨0⟩, ⟨1⟩, ⟨0⟩, ⟨1⟩] ∧
          added.2.collectVars added.1 [⟨1⟩] = [⟨1⟩, ⟨0⟩] := by
  intro row ty added
  have hroom : added.2.HasRoom := (within_empty.add ty).hasRoom (by decide)
  have hid : added.2.idOf? ty = some added.1 := idOf?_add rfl hroom
  have hacc := acc_of_idOf? hroom hid
  obtain ⟨htype, hnumber, hsame⟩ := collects_occurrences ty hacc
  have hoccurs : added.2.occurrences added.1 hacc = ty.occurrences := hsame hroom hid
  refine ⟨hroom, hid, hacc, htype, hnumber, hoccurs.trans (by decide), ?_⟩
  rw [hnumber.collect_eq, hoccurs]
  decide

end TypeTable

end VariadicGenerics

import Mathlib.Data.List.Induction
import VariadicGenerics.Message

/-!
# Filled templates

The holes of a text are filled one after another, and each time the whole text is searched, what
earlier values brought in included. Where every opening brace of the text begins a hole and no value
has an opening brace, this is the same as filling all holes at once: an opening brace still begins a
hole of the text, two holes with different numbers never match each other, and what a value brought
in is passed over.

The text is read as pieces, which are holes and single characters. The invariant of the filling is
that after the first values the text spells the same pieces, with the first holes filled.

Pieces can be read back from the text that they spell: an opening brace begins a hole, the number of
the hole has no brace in it, and every other character is a piece of its own. A hole is never the
beginning of a hole with another number, because the closing brace comes right after the digits.

The values may have closing braces, digits and anything else that is not an opening brace. With an
opening brace a value could bring in a hole that is filled later.

## Main results

* `Template.OpensHoles.existsUnique_reads`: a text whose opening braces begin holes is read in one
  way.
* `Template.replaceFrom_spell`: replacing one hole everywhere.
* `Template.fillFrom_spell`: filling one hole after another.
* `Template.fill_of_opensHoles`: filling one hole after another is filling all of them at once.
-/

namespace VariadicGenerics

namespace Template

variable {i j : Nat} {c : Char} {value text before after : List Char}

/-! ### Holes -/

/-- A character that does not stand in the first of two parts stands in the second. -/
theorem exists_of_append_eq {xs ys : List Char} (hc : c ∉ xs)
    (h : xs ++ ys = before ++ c :: after) :
    ∃ mid, before = xs ++ mid ∧ ys = mid ++ c :: after := by
  rcases List.append_eq_append_iff.mp h with hsecond | ⟨mid, hxs, hrest⟩
  · exact hsecond
  · cases mid with
    | nil => exact ⟨[], by rw [hxs, List.append_nil, List.append_nil], hrest.symm⟩
    | cons d mid =>
        obtain rfl := (List.cons.inj hrest).1
        exact absurd (hxs ▸ List.mem_append_right before List.mem_cons_self) hc

/-- Only digits spell a number. -/
theorem not_mem_digits (hc : c.isDigit = false) : c ∉ Nat.toDigits 10 i := by
  intro hmem
  rw [Nat.isDigit_of_mem_toDigits (by decide) (by decide) hmem] at hc
  cases hc

/-- A number is known by its digits. -/
theorem toDigits_inj (h : Nat.toDigits 10 i = Nat.toDigits 10 j) : i = j := by
  have hread := congrArg (fun digits => Nat.ofDigitChars 10 digits 0) h
  simpa using hread

/-- What follows the opening brace of a hole. -/
def holeTail (i : Nat) : List Char := Nat.toDigits 10 i ++ ['}']

/-- A hole begins with an opening brace. -/
theorem hole_eq (i : Nat) : hole i = '{' :: holeTail i := rfl

/-- A hole has no other opening brace. -/
theorem brace_not_mem_holeTail (i : Nat) : '{' ∉ holeTail i := by
  rw [holeTail, List.mem_append, not_or]
  exact ⟨not_mem_digits (by decide), by decide⟩

/-- **Holes that match are equal**, whatever follows them, because the closing brace ends the digits
of both. -/
theorem hole_append_inj (h : hole i ++ before = hole j ++ after) : i = j ∧ before = after := by
  have htails : Nat.toDigits 10 i ++ '}' :: before = Nat.toDigits 10 j ++ '}' :: after := by
    simpa [hole] using h
  obtain ⟨mid, hdigits, hrest⟩ := exists_of_append_eq (not_mem_digits (by decide)) htails
  cases mid with
  | nil => exact ⟨(toDigits_inj (by simpa using hdigits)).symm, (List.cons.inj hrest).2⟩
  | cons d mid =>
      obtain rfl := (List.cons.inj hrest).1
      have hmem : '}' ∈ Nat.toDigits 10 j :=
        hdigits ▸ List.mem_append_right _ List.mem_cons_self
      exact absurd hmem (not_mem_digits (by decide))

/-- One hole is at the beginning of another only when it is the same. -/
theorem isPrefixOf_hole_iff : (hole i).isPrefixOf (hole j ++ text) = true ↔ i = j := by
  rw [List.isPrefixOf_iff_prefix]
  constructor
  · rintro ⟨rest, hrest⟩
    exact (hole_append_inj hrest).1
  · rintro rfl
    exact List.prefix_append _ _

/-! ### Replacing one hole -/

/-- Characters that are to be passed over are passed over. -/
theorem replaceFrom_length (pattern value passed text : List Char) :
    replaceFrom pattern value passed.length (passed ++ text) =
      replaceFrom pattern value 0 text := by
  induction passed with
  | nil => rfl
  | cons c rest ih => exact ih

/-- A character that is no opening brace is passed over. -/
theorem replaceFrom_cons (hc : c ≠ '{') :
    replaceFrom (hole i) value 0 (c :: text) = c :: replaceFrom (hole i) value 0 text := by
  have hno : ¬ (hole i).isPrefixOf (c :: text) = true := by
    rw [List.isPrefixOf_iff_prefix, hole_eq, List.cons_prefix_cons]
    exact fun h => hc h.1.symm
  rw [replaceFrom, if_neg hno]

/-- Characters other than opening braces are kept. -/
theorem replaceFrom_append (h : '{' ∉ before) :
    replaceFrom (hole i) value 0 (before ++ after) =
      before ++ replaceFrom (hole i) value 0 after := by
  induction before with
  | nil => rfl
  | cons c rest ih =>
      rw [List.mem_cons, not_or] at h
      rw [List.cons_append, replaceFrom_cons (Ne.symm h.1), ih h.2, List.cons_append]

/-- The hole that is filled gives way to its value, in which nothing is filled. -/
theorem replaceFrom_hole_self :
    replaceFrom (hole i) value 0 (hole i ++ text) =
      value ++ replaceFrom (hole i) value 0 text := by
  have hlength : (hole i).length - 1 = (holeTail i).length := rfl
  have hmatch : (hole i).isPrefixOf ('{' :: (holeTail i ++ text)) = true :=
    isPrefixOf_hole_iff.mpr rfl
  change replaceFrom (hole i) value 0 ('{' :: (holeTail i ++ text)) = _
  rw [replaceFrom, if_pos hmatch, hlength, replaceFrom_length]

/-- Another hole is passed over as a whole. -/
theorem replaceFrom_hole_of_ne (hne : i ≠ j) :
    replaceFrom (hole i) value 0 (hole j ++ text) =
      hole j ++ replaceFrom (hole i) value 0 text := by
  have hno : ¬ (hole i).isPrefixOf ('{' :: (holeTail j ++ text)) = true :=
    mt isPrefixOf_hole_iff.mp hne
  change replaceFrom (hole i) value 0 ('{' :: (holeTail j ++ text)) = _
  rw [replaceFrom, if_neg hno, replaceFrom_append (brace_not_mem_holeTail j)]
  rfl

/-! ### Pieces -/

/-- A piece of a text: a hole, or a character outside of holes. -/
inductive Piece where
  | char (c : Char)
  | hole (i : Nat)
  deriving DecidableEq, Repr

namespace Piece

/-- The characters of a piece. -/
def spelling : Piece → List Char
  | char c => [c]
  | hole i => Template.hole i

/-- An opening brace is not a piece of its own. -/
def IsProper : Piece → Prop
  | char c => c ≠ '{'
  | hole _ => True

instance : DecidablePred IsProper
  | char c => inferInstanceAs (Decidable (c ≠ '{'))
  | hole _ => isTrue trivial

/-- What stands in place of a piece when all holes are filled at once: the value of a hole that has
one, and every other piece as it is. -/
def filled (values : List String) : Piece → List Char
  | char c => [c]
  | hole i =>
    match values[i]? with
    | some value => value.toList
    | none => Template.hole i

/-- The pieces that a piece turns into when one hole is replaced. -/
def replaced (i : Nat) (value : List Char) : Piece → List Piece
  | char c => [char c]
  | hole j => if j = i then value.map char else [hole j]

/-- The pieces that a piece turns into when the first holes are filled. -/
def plugged (values : List String) : Piece → List Piece
  | char c => [char c]
  | hole i =>
    match values[i]? with
    | some value => value.toList.map char
    | none => [hole i]

end Piece

variable {pieces pieces' : List Piece} {values : List String} {template : String}

/-- The text that pieces spell. -/
def spell (pieces : List Piece) : List Char := pieces.flatMap Piece.spelling

@[simp] theorem spell_nil : spell [] = [] := rfl

@[simp] theorem spell_char (c : Char) (pieces : List Piece) :
    spell (.char c :: pieces) = c :: spell pieces := rfl

@[simp] theorem spell_hole (i : Nat) (pieces : List Piece) :
    spell (.hole i :: pieces) = hole i ++ spell pieces := rfl

/-- Texts are put together as their pieces are. -/
theorem spell_append (pieces pieces' : List Piece) :
    spell (pieces ++ pieces') = spell pieces ++ spell pieces' :=
  List.flatMap_append

/-- Characters spell themselves. -/
theorem spell_map_char (text : List Char) : spell (text.map Piece.char) = text := by
  induction text with
  | nil => rfl
  | cons c rest ih => rw [List.map_cons, spell_char, ih]

/-! ### Reading a text -/

/-- Every opening brace of a text begins a hole. -/
def OpensHoles (text : List Char) : Prop :=
  ∀ before after, text = before ++ '{' :: after → ∃ i rest, '{' :: after = hole i ++ rest

/-- What a text is read as. -/
structure Reads (text : List Char) (pieces : List Piece) : Prop where
  proper : ∀ piece ∈ pieces, piece.IsProper
  spell_eq : spell pieces = text

/-- The end of a text in which braces open holes is such a text. -/
theorem OpensHoles.of_append (h : OpensHoles (before ++ after)) : OpensHoles after := by
  rintro start rest rfl
  exact h (before ++ start) rest (List.append_assoc ..).symm

/-- A character in front is read as itself. -/
theorem Reads.char (h : Reads text pieces) (hc : c ≠ '{') :
    Reads (c :: text) (.char c :: pieces) :=
  ⟨List.forall_mem_cons.mpr ⟨hc, h.proper⟩, by rw [spell_char, h.spell_eq]⟩

/-- A hole in front is read as one piece. -/
theorem Reads.hole (h : Reads text pieces) (i : Nat) :
    Reads (hole i ++ text) (.hole i :: pieces) :=
  ⟨List.forall_mem_cons.mpr ⟨trivial, h.proper⟩, by rw [spell_hole, h.spell_eq]⟩

/-- Where braces open holes a text can be read. -/
theorem OpensHoles.exists_reads (h : OpensHoles text) : ∃ pieces, Reads text pieces := by
  induction hlength : text.length using Nat.strongRecOn generalizing text with
  | ind n ih =>
      cases text with
      | nil => exact ⟨[], fun _ hmem => absurd hmem List.not_mem_nil, rfl⟩
      | cons c rest =>
          rw [List.length_cons] at hlength
          by_cases hc : c = '{'
          · subst hc
            obtain ⟨i, after, hafter⟩ := h [] rest rfl
            have hrest : rest = holeTail i ++ after := (List.cons.inj hafter).2
            have hshorter : after.length < n := by
              rw [hrest, List.length_append] at hlength
              omega
            rw [hafter] at h ⊢
            obtain ⟨pieces, hpieces⟩ := ih after.length hshorter h.of_append rfl
            exact ⟨.hole i :: pieces, hpieces.hole i⟩
          · have hcons : OpensHoles ([c] ++ rest) := h
            have hsuffix : OpensHoles rest := hcons.of_append
            obtain ⟨pieces, hpieces⟩ := ih rest.length (by omega) hsuffix rfl
            exact ⟨.char c :: pieces, hpieces.char hc⟩

/-- A text that is read has opening braces at its holes only. -/
theorem Reads.opensHoles (h : Reads text pieces) : OpensHoles text := by
  obtain ⟨hproper, rfl⟩ := h
  induction pieces with
  | nil => exact fun before after hnil => absurd hnil (by simp)
  | cons piece rest ih =>
      rw [List.forall_mem_cons] at hproper
      intro before after heq
      cases before with
      | nil =>
          cases piece with
          | char c => exact absurd (List.cons.inj heq).1 hproper.1
          | hole i => exact ⟨i, spell rest, heq.symm⟩
      | cons d before =>
          cases piece with
          | char c => exact ih hproper.2 before after (List.cons.inj heq).2
          | hole i =>
              have htail : holeTail i ++ spell rest = before ++ '{' :: after :=
                (List.cons.inj heq).2
              obtain ⟨mid, -, hrest⟩ := exists_of_append_eq (brace_not_mem_holeTail i) htail
              exact ih hproper.2 mid after hrest

/-- **A text is read in one way** at most. -/
theorem Reads.unique (h : Reads text pieces) (h' : Reads text pieces') : pieces = pieces' := by
  obtain ⟨hproper, rfl⟩ := h
  obtain ⟨hproper', heq⟩ := h'
  induction pieces generalizing pieces' with
  | nil =>
      cases pieces' with
      | nil => rfl
      | cons piece rest => cases piece <;> cases heq
  | cons piece rest ih =>
      rw [List.forall_mem_cons] at hproper
      cases pieces' with
      | nil => cases piece <;> cases heq
      | cons piece' rest' =>
          rw [List.forall_mem_cons] at hproper'
          cases piece with
          | char c =>
              cases piece' with
              | char d =>
                  obtain ⟨rfl, htail⟩ := List.cons.inj heq
                  rw [ih hproper.2 hproper'.2 htail]
              | hole j => exact absurd (List.cons.inj heq).1.symm hproper.1
          | hole i =>
              cases piece' with
              | char d => exact absurd (List.cons.inj heq).1 hproper'.1
              | hole j =>
                  obtain ⟨rfl, htail⟩ := hole_append_inj heq
                  rw [ih hproper.2 hproper'.2 htail]

/-- **A text whose opening braces begin holes** is read in one way. -/
theorem OpensHoles.existsUnique_reads (h : OpensHoles text) : ∃! pieces, Reads text pieces := by
  obtain ⟨pieces, hpieces⟩ := h.exists_reads
  exact ⟨pieces, hpieces, fun _ hother => hother.unique hpieces⟩

/-! ### Filling -/

/-- **Replacing one hole** everywhere in a text. -/
theorem replaceFrom_spell (i : Nat) (value : List Char)
    (hproper : ∀ piece ∈ pieces, piece.IsProper) :
    replaceFrom (hole i) value 0 (spell pieces) =
      spell (pieces.flatMap (Piece.replaced i value)) := by
  induction pieces with
  | nil => rfl
  | cons piece rest ih =>
      rw [List.forall_mem_cons] at hproper
      rw [List.flatMap_cons, spell_append, ← ih hproper.2]
      cases piece with
      | char c => exact replaceFrom_cons hproper.1
      | hole j =>
          rw [spell_hole, Piece.replaced]
          split
          · next hji =>
              subst hji
              rw [replaceFrom_hole_self, spell_map_char]
          · next hji =>
              rw [replaceFrom_hole_of_ne (Ne.symm hji), spell_hole, spell_nil, List.append_nil]

/-- One more value fills the next hole. -/
theorem flatMap_replaced_plugged (values : List String) (value : String) (piece : Piece) :
    (piece.plugged values).flatMap (Piece.replaced values.length value.toList) =
      piece.plugged (values ++ [value]) := by
  have hchars (text : List Char) :
      (text.map Piece.char).flatMap (Piece.replaced values.length value.toList) =
        text.map Piece.char := by
    rw [List.flatMap_map]
    exact List.map_eq_flatMap.symm
  cases piece with
  | char c => rfl
  | hole i =>
      rw [Piece.plugged, Piece.plugged]
      rcases Nat.lt_trichotomy i values.length with hlt | rfl | hgt
      · rw [List.getElem?_append_left hlt, List.getElem?_eq_getElem hlt]
        exact hchars _
      · rw [List.getElem?_concat_length, List.getElem?_eq_none (Nat.le_refl _)]
        simp [Piece.replaced]
      · rw [List.getElem?_eq_none (Nat.le_of_lt hgt),
          List.getElem?_eq_none (by simpa using Nat.succ_le_of_lt hgt)]
        simp [Piece.replaced, Nat.ne_of_gt hgt]

/-- Values without opening braces bring in no opening braces. -/
theorem isProper_of_mem_plugged {piece part : Piece}
    (hvalues : ∀ value ∈ values, '{' ∉ value.toList)
    (hproper : piece.IsProper) (hpart : part ∈ piece.plugged values) : part.IsProper := by
  cases piece with
  | char c => exact List.mem_singleton.mp hpart ▸ hproper
  | hole i =>
      rw [Piece.plugged] at hpart
      split at hpart
      · next value hvalue =>
          obtain ⟨c, hc, rfl⟩ := List.mem_map.mp hpart
          rintro rfl
          exact hvalues value (List.mem_of_getElem? hvalue) hc
      · exact List.mem_singleton.mp hpart ▸ trivial

/-- The last value is filled in after the others. -/
theorem fillFrom_concat (i : Nat) (values : List (List Char)) (value text : List Char) :
    fillFrom i (values ++ [value]) text =
      replaceFrom (hole (i + values.length)) value 0 (fillFrom i values text) := by
  induction values generalizing i text with
  | nil => rfl
  | cons first rest ih =>
      rw [List.cons_append, fillFrom, ih, fillFrom, List.length_cons, Nat.add_assoc,
        Nat.add_comm 1]

/-- **Filling one hole after another** leaves a text that spells the same pieces, with the first
holes filled. -/
theorem fillFrom_spell (hproper : ∀ piece ∈ pieces, piece.IsProper)
    (hvalues : ∀ value ∈ values, '{' ∉ value.toList) :
    fillFrom 0 (values.map String.toList) (spell pieces) =
      spell (pieces.flatMap (Piece.plugged values)) := by
  induction values using List.reverseRecOn with
  | nil =>
      have hsame : Piece.plugged [] = fun piece => [piece] := by
        funext piece
        cases piece <;> rfl
      rw [hsame, List.flatMap_singleton']
      rfl
  | append_singleton values value ih =>
      have hfirst : ∀ value ∈ values, '{' ∉ value.toList :=
        fun value hmem => hvalues value (List.mem_append_left _ hmem)
      have hplugged : ∀ part ∈ pieces.flatMap (Piece.plugged values), part.IsProper := by
        intro part hpart
        obtain ⟨piece, hpiece, hpart⟩ := List.mem_flatMap.mp hpart
        exact isProper_of_mem_plugged hfirst (hproper piece hpiece) hpart
      rw [List.map_append, List.map_singleton, fillFrom_concat, ih hfirst, Nat.zero_add,
        List.length_map, replaceFrom_spell _ _ hplugged, List.flatMap_assoc]
      simp only [flatMap_replaced_plugged]

/-- The pieces that a piece turns into spell what stands in its place. -/
theorem spell_plugged (values : List String) (piece : Piece) :
    spell (piece.plugged values) = piece.filled values := by
  cases piece with
  | char c => rfl
  | hole i =>
      rw [Piece.plugged, Piece.filled]
      cases values[i]? with
      | none => exact List.append_nil _
      | some value => exact spell_map_char _

/-- **Filling is simultaneous.** Let every opening brace of a template begin a hole, and let no
value have an opening brace. Then the template is read in one way as holes and other characters, and
filling it puts its value in place of every hole that has one, leaves the other holes and characters
as they are, and changes nothing in what a value brought in. -/
theorem fill_of_opensHoles (htemplate : OpensHoles template.toList)
    (hvalues : ∀ value ∈ values, '{' ∉ value.toList) :
    (∃! pieces, Reads template.toList pieces) ∧
      ∀ pieces, Reads template.toList pieces →
        fill template values = String.ofList (pieces.flatMap (Piece.filled values)) := by
  refine ⟨htemplate.existsUnique_reads, fun pieces hreads => ?_⟩
  have hfilled : spell (pieces.flatMap (Piece.plugged values)) =
      pieces.flatMap (Piece.filled values) := by
    rw [spell, List.flatMap_assoc]
    exact congrArg pieces.flatMap (funext (spell_plugged values))
  rw [fill, ← hreads.spell_eq, fillFrom_spell hreads.proper hvalues, hfilled]

/-- A rejected overload whose name has closing braces and digits, explained without an error. -/
theorem fill_of_opensHoles_overload :
    let template := Message.overloadFailed.template
    let values := ["1", "2", "f\x7d0\x7d"]
    let pieces := "Overload ".toList.map Piece.char ++ .hole 0 :: " of ".toList.map Piece.char ++
      .hole 1 :: ", '".toList.map Piece.char ++
      .hole 2 :: "', gave the following error: ".toList.map Piece.char ++ [.hole 3]
    (OpensHoles template.toList ∧ ∀ value ∈ values, '{' ∉ value.toList) ∧
      fill template values = String.ofList (pieces.flatMap (Piece.filled values)) ∧
        fill template values =
          "Overload 1 of 2, 'f\x7d0\x7d', gave the following error: \x7b3\x7d" := by
  intro template values pieces
  have hreads : Reads template.toList pieces := ⟨by decide, by decide⟩
  have hvalues : ∀ value ∈ values, '{' ∉ value.toList := by decide
  have hfill := (fill_of_opensHoles hreads.opensHoles hvalues).2 pieces hreads
  exact ⟨⟨hreads.opensHoles, hvalues⟩, hfill, hfill.trans (by decide)⟩

/-- A value with an opening brace is searched for later holes. -/
example : fill "{0}{1}" ["{1}", "x"] = "xx" := by decide

end Template

end VariadicGenerics

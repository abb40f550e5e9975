/-
# ClassFormat.Proofs.Descriptor: which texts spell types

The grammar of descriptors says which texts are types, and by which name each of them is shown.  A
method descriptor is a row of types between parentheses and one more behind them, which can also be
`V`; where one type ends and the next begins is not marked, and a name can hold any character but
the `;` behind it.

The functions on descriptors accept exactly the texts of the grammar.  A type is told from its first
characters alone, whatever follows it, so a text can be cut in one way only.

Brackets are counted in 32 bits.  The grammar is stated for any way to count them, so that it says
both what is read in texts where the count goes round and, where it does not, that there are as many
dimensions as brackets.
-/
import ClassFormat.Descriptor
import ClassFormat.Proofs.Outcome
import Mathlib.Algebra.Group.Nat.Defs
import Mathlib.Data.List.Forall2

namespace ClassFormat

/-! ## The grammar -/

namespace Descriptor

/-- The letter of a primitive type and the keyword that it is shown by. -/
inductive BaseText : Char → String → Prop
  | byte : BaseText 'B' "byte"
  | char : BaseText 'C' "char"
  | double : BaseText 'D' "double"
  | float : BaseText 'F' "float"
  | int : BaseText 'I' "int"
  | long : BaseText 'J' "long"
  | short : BaseText 'S' "short"
  | boolean : BaseText 'Z' "boolean"

/-- A character of a name and the one that it is shown by. -/
inductive NameChar : Char → Char → Prop
  | separator : NameChar '/' '.'
  | other {c : Char} (h : c ≠ '/') : NameChar c c

/-- The text of a type that is not an array, and the name it is shown by. -/
inductive ElementText : List Char → String → Prop
  | base {letter : Char} {keyword : String} (h : BaseText letter keyword) :
      ElementText [letter] keyword
  | named {mark : Char} {name shown : List Char} (hmark : mark = 'L' ∨ mark = 'T')
      (hname : name ≠ []) (hend : ';' ∉ name) (hshown : List.Forall₂ NameChar name shown) :
      ElementText (mark :: (name ++ [';'])) (String.ofList shown)

section Grammar

variable (count : Nat → Int)

/-- The text of a type: brackets for its dimensions, and behind them what is not an array. -/
inductive CountedType : List Char → String → Prop
  | below (brackets : Nat) {element : List Char} {shown : String} (h : ElementText element shown) :
      CountedType (List.replicate brackets '[' ++ element)
        (shown ++ String.join (List.replicate (count brackets).toNat "[]"))

/-- The text of what a method returns: a type, or nothing if no brackets are counted. -/
inductive CountedResult : List Char → String → Prop
  | void (brackets : Nat) (h : count brackets = 0) :
      CountedResult (List.replicate brackets '[' ++ ['V']) "void"
  | value {text : List Char} {shown : String} (h : CountedType count text shown) :
      CountedResult text shown

/-- A method descriptor and the texts it is made of. -/
structure CountedMethod (text : List Char) (parameters : List (List Char)) (result : List Char) :
    Prop where
  cut : text = '(' :: (parameters.flatten ++ ')' :: result)
  types : ∀ parameter ∈ parameters, ∃ shown, CountedType count parameter shown
  returns : ∃ shown, CountedResult count result shown

end Grammar

/-- The text of a type: a bracket for each dimension, and behind them what is not an array. -/
abbrev TypeText : List Char → String → Prop := CountedType Int.ofNat

/-- The text of what a method returns: a type or `V`. -/
abbrev ResultText : List Char → String → Prop := CountedResult Int.ofNat

/-- A method descriptor, a row of types between parentheses and a result. -/
abbrev MethodText : List Char → List (List Char) → List Char → Prop := CountedMethod Int.ofNat

/-- A number of brackets as a signed counter of 32 bits tells it, which goes round. -/
def wrapped (brackets : Nat) : Int := (Int32.ofNat brackets).toInt

theorem wrapped_eq_zero_iff {brackets : Nat} : wrapped brackets = 0 ↔ Int32.ofNat brackets = 0 := by
  rw [wrapped, ← Int32.toInt_zero, Int32.toInt_inj]

/-! ### Other ways to count -/

section Recount

variable {count other : Nat → Int} {text : List Char} {shown : String}

/-- A type is a type in any way to count its brackets. -/
theorem CountedType.recount (h : CountedType count text shown) :
    ∃ name, CountedType other text name := by
  obtain ⟨brackets, helement⟩ := h
  exact ⟨_, .below brackets helement⟩

theorem CountedResult.recount
    (hnone : ∀ n, List.replicate n '[' <:+: text → count n = 0 → other n = 0)
    (h : CountedResult count text shown) : ∃ name, CountedResult other text name := by
  cases h with
  | void brackets h =>
    exact ⟨_, .void brackets (hnone brackets (List.prefix_append _ _).isInfix h)⟩
  | value htype =>
    obtain ⟨name, hname⟩ := htype.recount
    exact ⟨name, .value hname⟩

theorem CountedMethod.recount {parameters : List (List Char)} {result : List Char}
    (hnone : ∀ n, List.replicate n '[' <:+: text → count n = 0 → other n = 0)
    (h : CountedMethod count text parameters result) :
    CountedMethod other text parameters result := by
  obtain ⟨rfl, htypes, returned, hreturned⟩ := h
  have hresult : result <:+: '(' :: (parameters.flatten ++ ')' :: result) :=
    ⟨'(' :: (parameters.flatten ++ [')']), [], by simp⟩
  refine ⟨rfl, fun parameter hmem => ?_, ?_⟩
  · obtain ⟨name, hname⟩ := htypes parameter hmem
    exact hname.recount
  · exact hreturned.recount fun n hn => hnone n (hn.trans hresult)

/-- The dimensions of a type are those of any count that agrees on its brackets. -/
theorem CountedType.congr (hagree : ∀ n, List.replicate n '[' <:+: text → count n = other n)
    (h : CountedType count text shown) : CountedType other text shown := by
  obtain ⟨brackets, helement⟩ := h
  rw [hagree brackets (List.prefix_append _ _).isInfix]
  exact .below brackets helement

theorem CountedResult.congr (hagree : ∀ n, List.replicate n '[' <:+: text → count n = other n)
    (h : CountedResult count text shown) : CountedResult other text shown := by
  cases h with
  | void brackets h =>
    rw [hagree brackets (List.prefix_append _ _).isInfix] at h
    exact .void brackets h
  | value htype => exact .value (htype.congr hagree)

end Recount

end Descriptor

open Descriptor

/-! ## Types that are not arrays -/

theorem BaseType.letter_of_ofLetter? {letter : Char} {type : BaseType}
    (h : ofLetter? letter = some type) : letter = type.letter := by
  unfold ofLetter? at h
  split at h <;> cases h <;> rfl

theorem BaseType.baseText (type : BaseType) : BaseText type.letter type.keyword := by
  cases type <;> constructor

theorem Descriptor.BaseText.ofLetter? {letter : Char} {keyword : String}
    (h : BaseText letter keyword) :
    ∃ type, BaseType.ofLetter? letter = some type ∧ type.keyword = keyword := by
  cases h <;> exact ⟨_, rfl, rfl⟩

theorem Descriptor.nameChar_iff {c shown : Char} :
    NameChar c shown ↔ (if c = '/' then '.' else c) = shown := by
  constructor
  · rintro (_ | h)
    · rfl
    · rw [if_neg h]
  · rintro rfl
    split
    case isTrue h => exact h ▸ .separator
    case isFalse h => exact .other h

/-- A name is shown character by character. -/
theorem Descriptor.forall₂_nameChar_iff {name shown : List Char} :
    List.Forall₂ NameChar name shown ↔ dotted name = shown := by
  rw [dotted, ← List.forall₂_eq_eq_eq, List.forall₂_map_left_iff]
  exact ⟨.imp fun _ _ => nameChar_iff.mp, .imp fun _ _ => nameChar_iff.mpr⟩

/-- A type that is not an array starts with a character, and not with a bracket. -/
theorem Descriptor.ElementText.exists_cons {element : List Char} {shown : String}
    (h : ElementText element shown) :
    ∃ first behind, element = first :: behind ∧ first ≠ '[' := by
  cases h with
  | base hbase => cases hbase <;> exact ⟨_, _, rfl, by decide⟩
  | named hmark =>
    refine ⟨_, _, rfl, ?_⟩
    rcases hmark with rfl | rfl <;> decide

namespace ElementType

theorem parseName?_eq_some_iff {text name rest : List Char} :
    parseName? text = some (name, rest)
      ↔ name ≠ [] ∧ ';' ∉ name ∧ text = name ++ ';' :: rest := by
  simp only [parseName?, Option.filter_eq_some_iff]
  constructor
  · rintro ⟨hsplit, hname⟩
    obtain ⟨htext, hend⟩ := Text.eq_of_splitFirst? hsplit
    refine ⟨?_, hend, htext⟩
    simpa using hname
  · rintro ⟨hname, hend, rfl⟩
    refine ⟨Text.splitFirst?_append hend, ?_⟩
    simpa using hname

theorem parse?_of_ofLetter? {letter : Char} {type : BaseType}
    (h : BaseType.ofLetter? letter = some type) (rest : List Char) :
    parse? (letter :: rest) = some (.base type, rest) := by
  rw [BaseType.letter_of_ofLetter? h]
  cases type <;> rfl

/-- What is not an array is told from its first characters, whatever follows it. -/
theorem parse?_append {element : List Char} {shown : String} (h : ElementText element shown) :
    ∃ type, render type = shown ∧ ∀ rest, parse? (element ++ rest) = some (type, rest) := by
  cases h with
  | base hbase =>
    obtain ⟨type, htype, rfl⟩ := hbase.ofLetter?
    exact ⟨.base type, rfl, parse?_of_ofLetter? htype⟩
  | @named mark name shown hmark hname hend hshown =>
    obtain rfl := forall₂_nameChar_iff.mp hshown
    have hread : ∀ rest, parseName? (name ++ ';' :: rest) = some (name, rest) :=
      fun rest => parseName?_eq_some_iff.mpr ⟨hname, hend, rfl⟩
    rcases hmark with rfl | rfl
    · refine ⟨.object name, rfl, fun rest => ?_⟩
      simp [parse?, hread]
    · refine ⟨.variable name, rfl, fun rest => ?_⟩
      simp [parse?, hread]

theorem elementText_of_parse? {text rest : List Char} {type : ElementType}
    (h : parse? text = some (type, rest)) :
    ∃ element, ElementText element type.render ∧ text = element ++ rest := by
  unfold parse? at h
  split at h
  case h_1 => cases h
  case h_2 text =>
    obtain ⟨⟨name, left⟩, hname, heq⟩ := Option.map_eq_some_iff.mp h
    obtain ⟨hne, hend, rfl⟩ := parseName?_eq_some_iff.mp hname
    cases heq
    exact ⟨_, .named (.inl rfl) hne hend (forall₂_nameChar_iff.mpr rfl), by simp⟩
  case h_3 text =>
    obtain ⟨⟨name, left⟩, hname, heq⟩ := Option.map_eq_some_iff.mp h
    obtain ⟨hne, hend, rfl⟩ := parseName?_eq_some_iff.mp hname
    cases heq
    exact ⟨_, .named (.inr rfl) hne hend (forall₂_nameChar_iff.mpr rfl), by simp⟩
  case h_4 letter text _ _ =>
    obtain ⟨base, hbase, heq⟩ := Option.map_eq_some_iff.mp h
    cases heq
    rw [BaseType.letter_of_ofLetter? hbase]
    exact ⟨_, .base base.baseText, rfl⟩

end ElementType

/-! ## One type -/

namespace FieldType

theorem skipBrackets_of_ne {first : Char} (h : first ≠ '[') (dimensions : Int32)
    (text : List Char) : skipBrackets dimensions (first :: text) = (dimensions, first :: text) := by
  unfold skipBrackets
  split
  case h_1 heq => exact absurd (List.head_eq_of_cons_eq heq) h
  case h_2 => rfl

theorem skipBrackets_replicate (brackets : Nat) {first : Char} (h : first ≠ '[')
    (dimensions : Int32) (text : List Char) :
    skipBrackets dimensions (List.replicate brackets '[' ++ first :: text)
      = (dimensions + Int32.ofNat brackets, first :: text) := by
  induction brackets generalizing dimensions with
  | zero =>
    rw [show Int32.ofNat 0 = 0 from rfl, Int32.add_zero]
    exact skipBrackets_of_ne h dimensions text
  | succ brackets ih =>
    rw [List.replicate_succ, List.cons_append, skipBrackets, ih, Int32.add_assoc,
      Nat.add_comm brackets, Int32.ofNat_add]
    rfl

/-- What stands in front of the text that is left is brackets, and they are counted. -/
theorem eq_of_skipBrackets {dimensions count : Int32} {text rest : List Char}
    (h : skipBrackets dimensions text = (count, rest)) :
    ∃ brackets, text = List.replicate brackets '[' ++ rest
      ∧ count = dimensions + Int32.ofNat brackets := by
  fun_induction skipBrackets dimensions text with
  | case1 dimensions text ih =>
    obtain ⟨brackets, rfl, rfl⟩ := ih h
    refine ⟨brackets + 1, rfl, ?_⟩
    rw [Nat.add_comm, Int32.ofNat_add, ← Int32.add_assoc]
    rfl
  | case2 =>
    cases h
    exact ⟨0, rfl, (Int32.add_zero _).symm⟩

/-- The text of a type is read off the front of whatever it stands in. -/
theorem parse?_append {text : List Char} {shown : String} (h : CountedType wrapped text shown) :
    ∃ type, render type = shown ∧ ∀ rest, parse? (text ++ rest) = some (type, rest) := by
  obtain ⟨brackets, helement⟩ := h
  obtain ⟨type, rfl, hread⟩ := ElementType.parse?_append helement
  obtain ⟨first, behind, rfl, hfirst⟩ := helement.exists_cons
  refine ⟨⟨Int32.ofNat brackets, type⟩, rfl, fun rest => ?_⟩
  have hskip := skipBrackets_replicate brackets hfirst 0 (behind ++ rest)
  rw [Int32.zero_add] at hskip
  rw [parse?, List.append_assoc, List.cons_append, hskip]
  exact congrArg (Option.map _) (hread rest)

theorem typeText_of_parse? {text rest : List Char} {type : FieldType}
    (h : parse? text = some (type, rest)) :
    ∃ front, CountedType wrapped front type.render ∧ text = front ++ rest := by
  obtain ⟨dimensions, behind, hskip⟩ : ∃ dimensions behind,
      skipBrackets 0 text = (dimensions, behind) := ⟨_, _, rfl⟩
  obtain ⟨brackets, rfl, rfl⟩ := eq_of_skipBrackets hskip
  rw [parse?, hskip] at h
  obtain ⟨⟨element, left⟩, helement, heq⟩ := Option.map_eq_some_iff.mp h
  cases heq
  obtain ⟨front, hfront, rfl⟩ := ElementType.elementText_of_parse? helement
  rw [Int32.zero_add]
  exact ⟨_, .below brackets hfront, (List.append_assoc ..).symm⟩

/-- A text that is read to its end is a type. -/
theorem exists_typeText {text : List Char} {type : FieldType} (h : parse? text = some (type, [])) :
    ∃ shown, TypeText text shown := by
  obtain ⟨front, hfront, rfl⟩ := typeText_of_parse? h
  rw [List.append_nil]
  exact hfront.recount

end FieldType

section Types

variable {count : Nat → Int} {text rest left : List Char} {shown : String}

/-- Neither the end of the parameters nor the letter of no result starts a type. -/
theorem Descriptor.CountedType.append_ne {c : Char} (h : CountedType count text shown)
    (hc : c = ')' ∨ c = 'V') : text ++ rest ≠ c :: left := by
  intro heq
  obtain ⟨name, hname⟩ := h.recount
  obtain ⟨type, -, hread⟩ := FieldType.parse?_append hname
  have hnone : FieldType.parse? (c :: left) = none := by
    rcases hc with rfl | rfl <;> rfl
  rw [← heq, hread] at hnone
  cases hnone

/-- Two types at the front of one text are the same type. -/
theorem Descriptor.CountedType.unique_front {other : List Char} {name : String}
    (h : CountedType count text shown) (hother : CountedType count other name)
    (heq : text ++ rest = other ++ left) : text = other ∧ rest = left := by
  obtain ⟨shown, h⟩ := h.recount
  obtain ⟨name, hother⟩ := hother.recount
  obtain ⟨type, -, hread⟩ := FieldType.parse?_append h
  obtain ⟨found, -, hfound⟩ := FieldType.parse?_append hother
  have hboth : some (type, rest) = some (found, left) := by rw [← hread, ← hfound, heq]
  obtain rfl : rest = left := congrArg Prod.snd (Option.some.inj hboth)
  exact ⟨List.append_cancel_right heq, rfl⟩

theorem Descriptor.CountedType.length_pos (h : CountedType count text shown) : 0 < text.length := by
  obtain ⟨brackets, helement⟩ := h
  obtain ⟨first, behind, rfl, -⟩ := helement.exists_cons
  rw [List.length_append, List.length_cons]
  omega

end Types

/-! ## Results -/

namespace ReturnType

theorem parse?_append {text : List Char} {shown : String} (h : CountedResult wrapped text shown) :
    ∃ type, render type = shown ∧ ∀ rest, parse? (text ++ rest) = some (type, rest) := by
  cases h with
  | void brackets hnone =>
    refine ⟨.void, rfl, fun rest => ?_⟩
    have hskip := FieldType.skipBrackets_replicate brackets (show 'V' ≠ '[' by decide) 0 rest
    rw [wrapped_eq_zero_iff.mp hnone, Int32.add_zero] at hskip
    rw [parse?, List.append_assoc, List.singleton_append, hskip]
    rfl
  | value htype =>
    obtain ⟨type, hrender, hread⟩ := FieldType.parse?_append htype
    refine ⟨.value type, hrender, fun rest => ?_⟩
    unfold parse?
    split
    case h_1 dimensions left hskip =>
      -- Nothing but `V` starts with that letter, so no type is read from here.
      have hnone := hread rest
      rw [FieldType.parse?, hskip] at hnone
      cases hnone
    case h_2 => rw [hread, Option.map_some]

theorem resultText_of_parse? {text rest : List Char} {type : ReturnType}
    (h : parse? text = some (type, rest)) :
    ∃ front, CountedResult wrapped front type.render ∧ text = front ++ rest := by
  unfold parse? at h
  split at h
  case h_1 dimensions left hskip =>
    obtain ⟨brackets, rfl, rfl⟩ := FieldType.eq_of_skipBrackets hskip
    obtain ⟨hnone, heq⟩ := Option.ite_none_right_eq_some.mp h
    cases heq
    rw [Int32.zero_add] at hnone
    exact ⟨_, .void brackets (wrapped_eq_zero_iff.mpr hnone), by simp⟩
  case h_2 =>
    obtain ⟨⟨found, left⟩, hfound, heq⟩ := Option.map_eq_some_iff.mp h
    cases heq
    obtain ⟨front, hfront, rfl⟩ := FieldType.typeText_of_parse? hfound
    exact ⟨front, .value hfront, rfl⟩

end ReturnType

/-! ## Rows of parameters -/

/-- Each parameter takes at least one character, so there are no more of them than characters. -/
theorem Descriptor.length_parameters_le {parameters : List (List Char)} {shown : List String}
    (h : List.Forall₂ (CountedType wrapped) parameters shown) :
    parameters.length ≤ parameters.flatten.length := by
  induction h with
  | nil => simp
  | cons hfirst _ ih =>
    have hpos := hfirst.length_pos
    simp only [List.length_cons, List.flatten_cons, List.length_append]
    omega

namespace FieldType

theorem parseParameters?_append {parameters : List (List Char)} {shown : List String}
    (h : List.Forall₂ (CountedType wrapped) parameters shown) :
    ∃ types : List FieldType, types.map render = shown
      ∧ ∀ fuel rest, parameters.length ≤ fuel →
        parseParameters? fuel (parameters.flatten ++ ')' :: rest) = some (types, rest) := by
  induction h with
  | nil => exact ⟨[], rfl, fun fuel rest _ => by simp [parseParameters?]⟩
  | @cons first shown parameters names hfirst _ ih =>
    obtain ⟨type, rfl, hread⟩ := parse?_append hfirst
    obtain ⟨types, rfl, hreads⟩ := ih
    refine ⟨type :: types, rfl, fun fuel rest hfuel => ?_⟩
    obtain ⟨fuel, rfl⟩ : ∃ less, fuel = less + 1 :=
      Nat.exists_eq_succ_of_ne_zero (by simp at hfuel; omega)
    rw [List.flatten_cons, List.append_assoc, parseParameters?]
    · rw [hread, Option.bind_eq_bind, Option.bind_some]
      simp only [hreads fuel rest (Nat.le_of_succ_le_succ hfuel)]
      rfl
    · intro left heq
      -- A type stands here, so this is not the end of the parameters.
      exact absurd heq (hfirst.append_ne (.inl rfl))

theorem typeTexts_of_parseParameters? {fuel : Nat} {text rest : List Char} {types : List FieldType}
    (h : parseParameters? fuel text = some (types, rest)) :
    ∃ parameters, List.Forall₂ (CountedType wrapped) parameters (types.map render)
      ∧ text = parameters.flatten ++ ')' :: rest := by
  fun_induction parseParameters? fuel text generalizing types with
  | case1 fuel left =>
    cases h
    exact ⟨[], .nil, rfl⟩
  | case2 => cases h
  | case3 fuel text _ ih =>
    obtain ⟨⟨first, left⟩, hfirst, h⟩ := Option.bind_eq_some_iff.mp h
    obtain ⟨⟨others, rest⟩, hothers, h⟩ := Option.bind_eq_some_iff.mp h
    cases h
    obtain ⟨front, hfront, rfl⟩ := typeText_of_parse? hfirst
    obtain ⟨parameters, hparameters, rfl⟩ := ih left hothers
    exact ⟨front :: parameters, .cons hfront hparameters, by simp⟩

end FieldType

/-! ## Methods -/

namespace Descriptor

section Methods

variable {count : Nat → Int} {text result rest : List Char} {parameters others : List (List Char)}

/-- Parameters and a result can be told apart in one way only. -/
theorem parameters_unique (h : ∀ parameter ∈ parameters, ∃ shown, CountedType count parameter shown)
    (hothers : ∀ parameter ∈ others, ∃ shown, CountedType count parameter shown)
    (heq : parameters.flatten ++ ')' :: result = others.flatten ++ ')' :: rest) :
    parameters = others ∧ result = rest := by
  induction parameters generalizing others with
  | nil =>
    cases others with
    | nil => exact ⟨rfl, List.tail_eq_of_cons_eq heq⟩
    | cons other others =>
      obtain ⟨shown, hother⟩ := hothers other List.mem_cons_self
      rw [List.flatten_cons, List.append_assoc] at heq
      exact absurd heq.symm (hother.append_ne (.inl rfl))
  | cons first parameters ih =>
    obtain ⟨shown, hfirst⟩ := h first List.mem_cons_self
    cases others with
    | nil =>
      rw [List.flatten_cons, List.append_assoc] at heq
      exact absurd heq (hfirst.append_ne (.inl rfl))
    | cons other others =>
      obtain ⟨name, hother⟩ := hothers other List.mem_cons_self
      simp only [List.flatten_cons, List.append_assoc] at heq
      obtain ⟨rfl, hbehind⟩ := hfirst.unique_front hother heq
      obtain ⟨rfl, rfl⟩ := ih (fun parameter hmem => h parameter (List.mem_cons_of_mem _ hmem))
        (fun parameter hmem => hothers parameter (List.mem_cons_of_mem _ hmem)) hbehind
      exact ⟨rfl, rfl⟩

theorem CountedMethod.unique (h : CountedMethod count text parameters result)
    (hother : CountedMethod count text others rest) : others = parameters ∧ rest = result := by
  have heq := hother.cut.symm.trans h.cut
  exact parameters_unique hother.types h.types (List.tail_eq_of_cons_eq heq)

/-- A row of texts is one of types if there is a name to show for each. -/
theorem forall_countedType_iff :
    (∀ parameter ∈ parameters, ∃ shown, CountedType count parameter shown)
      ↔ ∃ shown, List.Forall₂ (CountedType count) parameters shown := by
  induction parameters with
  | nil => simp
  | cons first parameters ih =>
    rw [List.forall_mem_cons, ih]
    constructor
    · rintro ⟨⟨name, hname⟩, names, hnames⟩
      exact ⟨name :: names, .cons hname hnames⟩
    · rintro ⟨_, _ | ⟨hname, hnames⟩⟩
      exact ⟨⟨_, hname⟩, _, hnames⟩

/-- A text of the grammar is read as a descriptor that shows its types. -/
theorem CountedMethod.parse? (h : CountedMethod wrapped text parameters result) :
    ∃ descriptor, MethodDescriptor.parse? text = some descriptor
      ∧ List.Forall₂ (CountedType wrapped) parameters (descriptor.parameters.map FieldType.render)
      ∧ CountedResult wrapped result descriptor.result.render := by
  obtain ⟨shown, hshown⟩ := forall_countedType_iff.mp h.types
  obtain ⟨returned, hreturned⟩ := h.returns
  obtain ⟨types, rfl, hreads⟩ := FieldType.parseParameters?_append hshown
  obtain ⟨type, rfl, hread⟩ := ReturnType.parse?_append hreturned
  refine ⟨⟨types, type⟩, ?_, hshown, hreturned⟩
  have hfuel : parameters.length ≤ (parameters.flatten ++ ')' :: result).length := by
    have hle := length_parameters_le hshown
    rw [List.length_append]
    omega
  have hresult := hread []
  rw [List.append_nil] at hresult
  rw [h.cut, MethodDescriptor.parse?, hreads _ result hfuel]
  simp only [Option.bind_eq_bind, Option.bind_some, hresult]
  rfl

theorem countedMethod_of_parse? {descriptor : MethodDescriptor}
    (h : MethodDescriptor.parse? text = some descriptor) :
    ∃ parameters result, CountedMethod wrapped text parameters result := by
  unfold MethodDescriptor.parse? at h
  split at h
  case h_1 text =>
    obtain ⟨⟨types, left⟩, htypes, hbehind⟩ := Option.bind_eq_some_iff.mp h
    obtain ⟨⟨type, rest⟩, htype, hend⟩ := Option.bind_eq_some_iff.mp hbehind
    obtain ⟨parameters, hparameters, rfl⟩ := FieldType.typeTexts_of_parseParameters? htypes
    obtain ⟨result, hresult, rfl⟩ := ReturnType.resultText_of_parse? htype
    obtain rfl : rest = [] := by
      by_contra hne
      simp [hne] at hend
    exact ⟨parameters, result, by simp, forall_countedType_iff.mpr ⟨_, hparameters⟩, _, hresult⟩
  case h_2 => cases h

end Methods

/-! ## The functions on descriptors -/

theorem typeName_eq_ok_iff {text : String} {shown : String} :
    typeName text = .ok shown ↔ CountedResult wrapped text.toList shown := by
  unfold typeName
  constructor
  · intro h
    split at h
    case h_1 type htype =>
      obtain ⟨front, hfront, heq⟩ := ReturnType.resultText_of_parse? htype
      rw [List.append_nil] at heq
      cases h
      rwa [heq]
    case h_2 => cases h
  · intro h
    obtain ⟨type, rfl, hread⟩ := ReturnType.parse?_append h
    have hwhole := hread []
    rw [List.append_nil] at hwhole
    rw [hwhole]

/-- A text that is no type is refused as a whole. -/
theorem typeName_eq_error {text : String} (h : ¬∃ shown, CountedResult wrapped text.toList shown) :
    typeName text = .error (.badDescriptor text) := by
  have hok : ∀ shown, typeName text ≠ .ok shown := fun shown hshown =>
    h ⟨shown, typeName_eq_ok_iff.mp hshown⟩
  unfold typeName at hok ⊢
  split
  case h_1 type htype =>
    rw [htype] at hok
    exact absurd rfl (hok type.render)
  case h_2 => rfl

theorem CountedMethod.method {text : String} {parameters : List (List Char)} {result : List Char}
    (h : CountedMethod wrapped text.toList parameters result) :
    ∃ descriptor, method text = .ok descriptor
      ∧ List.Forall₂ (CountedType wrapped) parameters (descriptor.parameters.map FieldType.render)
      ∧ CountedResult wrapped result descriptor.result.render := by
  obtain ⟨descriptor, hparse, hshown, hreturned⟩ := h.parse?
  refine ⟨descriptor, ?_, hshown, hreturned⟩
  rw [Descriptor.method, hparse]

theorem method_eq_error {text : String}
    (h : ¬∃ parameters result, CountedMethod wrapped text.toList parameters result) :
    method text = .error (.badDescriptor text) := by
  unfold method
  split
  case h_1 descriptor hparse => exact absurd (countedMethod_of_parse? hparse) h
  case h_2 => rfl

theorem wrapped_ofNat_eq_zero {brackets : Nat} (h : Int.ofNat brackets = 0) :
    wrapped brackets = 0 := by
  rw [Int.ofNat_eq_zero.mp h]
  rfl

/-- A text that is refused as a type is none. -/
theorem typeName_refused {text : String} {cause : Error} (h : typeName text = .error cause) :
    cause = .badDescriptor text ∧ ¬∃ shown, ResultText text.toList shown := by
  have hnone : ¬∃ shown, CountedResult wrapped text.toList shown := by
    rintro ⟨shown, hshown⟩
    rw [typeName_eq_ok_iff.mpr hshown] at h
    cases h
  rw [typeName_eq_error hnone] at h
  refine ⟨(Except.error.inj h).symm, ?_⟩
  rintro ⟨shown, hshown⟩
  exact hnone (hshown.recount fun n _ => wrapped_ofNat_eq_zero)

/-- A text that is refused as a method descriptor is none. -/
theorem signature_refused {text : String} {cause : Error} (h : signature text = .error cause) :
    cause = .badDescriptor text ∧ ¬∃ parameters result, MethodText text.toList parameters result := by
  have hmethod : method text = .error cause := map_eq_error_iff.mp h
  have hnone : ¬∃ parameters result, CountedMethod wrapped text.toList parameters result := by
    rintro ⟨parameters, result, htext⟩
    obtain ⟨descriptor, hdescriptor, -⟩ := htext.method
    rw [hdescriptor] at hmethod
    cases hmethod
  rw [method_eq_error hnone] at hmethod
  refine ⟨(Except.error.inj hmethod).symm, ?_⟩
  rintro ⟨parameters, result, htext⟩
  exact hnone ⟨parameters, result, htext.recount fun n _ => wrapped_ofNat_eq_zero⟩

/-- The functions on descriptors read a text as the grammar says, the brackets counted by `count`. -/
structure ReadBy (count : Nat → Int) (text : String) : Prop where
  /-- A type, or `V`, is shown by its name. -/
  type : ∀ shown, typeName text = .ok shown ↔ CountedResult count text.toList shown
  refusedType : (¬∃ shown, CountedResult count text.toList shown) →
    typeName text = .error (.badDescriptor text)
  /-- A method descriptor can be cut in one way only, and is shown by the names of its types. -/
  method : ∀ parameters result, CountedMethod count text.toList parameters result →
    (∀ others rest, CountedMethod count text.toList others rest →
      others = parameters ∧ rest = result)
    ∧ ∃ shown returned,
      parameters.map (fun parameter => typeName (String.ofList parameter)) = shown.map .ok
      ∧ typeName (String.ofList result) = .ok returned
      ∧ parameterTypes text = .ok shown
      ∧ parameterCount text = .ok parameters.length
      ∧ returnType text = .ok returned
      ∧ signature text = .ok ("(" ++ ", ".intercalate shown ++ ")")
  refusedMethod : (¬∃ parameters result, CountedMethod count text.toList parameters result) →
    parameterTypes text = .error (.badDescriptor text)
    ∧ parameterCount text = .error (.badDescriptor text)
    ∧ returnType text = .error (.badDescriptor text)
    ∧ signature text = .error (.badDescriptor text)

/-- A text is read in the same way by two counts that agree on its brackets. -/
theorem ReadBy.congr {count other : Nat → Int} {text : String}
    (hagree : ∀ n, List.replicate n '[' <:+: text.toList → count n = other n)
    (h : ReadBy count text) : ReadBy other text := by
  have hresult : ∀ shown, CountedResult count text.toList shown
      ↔ CountedResult other text.toList shown := fun shown =>
    ⟨.congr hagree, .congr fun n hn => (hagree n hn).symm⟩
  have hmethod : ∀ parameters result, CountedMethod count text.toList parameters result
      ↔ CountedMethod other text.toList parameters result := fun parameters result =>
    ⟨.recount fun n hn => (hagree n hn ▸ ·), .recount fun n hn => (hagree n hn ▸ ·)⟩
  obtain ⟨htype, hrefused, hread, hnone⟩ := h
  simp only [hresult, hmethod] at htype hrefused hread hnone
  exact ⟨htype, hrefused, hread, hnone⟩

end Descriptor

end ClassFormat

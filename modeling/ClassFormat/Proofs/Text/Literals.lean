/-
# ClassFormat.Proofs.Text.Literals: string literals are read back

A literal is read from front to back.  A backslash takes the letter behind it along, and the first
quote that no backslash takes ends the literal.  The literal of a text reads back as the text,
whatever stands behind it, so no two texts share a literal, and the literal of a field tells which
string the field starts with.

That no quote of the text ends its literal early is a matter of parity: between two characters of
the text the backslashes in front come in pairs, and the one that is written for a quote makes
their number odd.
-/
import ClassFormat.Declaration
import ClassFormat.Proofs.Constant.Rendering

namespace ClassFormat

namespace Text.Quoted

/-! ## A reader of literals -/

/-- The character that a letter behind a backslash stands for. -/
def unescape? : Char → Option Char
  | '"' => some '"'
  | '\\' => some '\\'
  | 'n' => some '\n'
  | 'r' => some '\r'
  | 't' => some '\t'
  | _ => none

/-- The text up to the closing quote, and what stands behind the quote.  A literal does not go over
the end of a line. -/
def readBody? : List Char → Option (List Char × List Char)
  | [] => none
  | '"' :: rest => some ([], rest)
  | '\\' :: letter :: rest => do
    let c ← unescape? letter
    (readBody? rest).map fun (text, behind) => (c :: text, behind)
  | c :: rest =>
    if c = '\\' ∨ c = '\n' ∨ c = '\r' then none
    else (readBody? rest).map fun (text, behind) => (c :: text, behind)

/-- The text of the literal in front, and what stands behind the literal. -/
def read? : List Char → Option (List Char × List Char)
  | '"' :: body => readBody? body
  | _ => none

/-- The text of a string that is a literal from end to end. -/
def unquote? (literal : String) : Option String :=
  match read? literal.toList with
  | some (text, []) => some (String.ofList text)
  | _ => none

/-! ## One character -/

/-- The two ways in which a character stands in a literal. -/
inductive Written (c : Char) : List Char → Prop
  | plain (hquote : c ≠ '"') (hbackslash : c ≠ '\\') (hfeed : c ≠ '\n') (hreturn : c ≠ '\r') :
      Written c [c]
  | escaped {letter : Char} (h : unescape? letter = some c) : Written c ['\\', letter]

theorem written_encodeChar (c : Char) : Written c (encodeChar c) := by
  unfold encodeChar escape?
  split
  · rename_i letter hletter
    split at hletter <;> cases hletter <;> exact .escaped rfl
  · rename_i hnone
    split at hnone <;> simp at hnone
    rename_i hquote hbackslash hfeed hreturn _
    exact .plain hquote hbackslash hfeed hreturn

theorem ne_lineEnd_of_unescape? {letter c : Char} (h : unescape? letter = some c) :
    letter ≠ '\n' ∧ letter ≠ '\r' := by
  constructor <;> rintro rfl <;> simp [unescape?] at h

/-- No line ends inside a character as it is written. -/
theorem Written.no_lineEnd {c : Char} {written : List Char} (h : Written c written) :
    '\n' ∉ written ∧ '\r' ∉ written := by
  cases h with
  | plain hquote hbackslash hfeed hreturn =>
    simp only [List.mem_singleton]
    exact ⟨hfeed.symm, hreturn.symm⟩
  | escaped hletter =>
    obtain ⟨hfeed, hreturn⟩ := ne_lineEnd_of_unescape? hletter
    simp [hfeed.symm, hreturn.symm]

theorem Written.readBody?_append {c : Char} {written : List Char} (h : Written c written)
    (rest : List Char) :
    readBody? (written ++ rest)
      = (readBody? rest).map fun (text, behind) => (c :: text, behind) := by
  cases h with
  | plain hquote hbackslash hfeed hreturn =>
    show readBody? (c :: rest) = _
    rw [readBody?.eq_4 c rest hquote fun _ _ h _ => hbackslash h]
    simp [hbackslash, hfeed, hreturn]
  | escaped hletter =>
    show readBody? ('\\' :: _ :: rest) = _
    simp [readBody?, hletter]

/-! ## Whole texts -/

/-- A text in front of its closing quote is read, and nothing behind the quote is looked at. -/
theorem readBody?_flatMap (text behind : List Char) :
    readBody? (text.flatMap encodeChar ++ '"' :: behind) = some (text, behind) := by
  induction text with
  | nil => rfl
  | cons c text ih =>
    rw [List.flatMap_cons, List.append_assoc, (written_encodeChar c).readBody?_append, ih]
    rfl

theorem read?_encode_append (text behind : List Char) :
    read? (encode text ++ behind) = some (text, behind) := by
  rw [encode, List.append_assoc]
  exact readBody?_flatMap text behind

theorem toList_quote (text : String) : (quote text).toList = encode text.toList := by
  simp [quote]

theorem unquote?_quote (text : String) : unquote? (quote text) = some text := by
  have hread : read? (quote text).toList = some (text.toList, []) := by
    rw [toList_quote]
    simpa using read?_encode_append text.toList []
  simp [unquote?, hread]

theorem quote_injective : Function.Injective quote := by
  intro text other h
  have hread := congrArg unquote? h
  rw [unquote?_quote, unquote?_quote] at hread
  exact Option.some.inj hread

/-- Every character of a literal is a quote or belongs to a character as it is written. -/
theorem not_mem_encode {c : Char} (hquote : c ≠ '"') (h : ∀ other, c ∉ encodeChar other)
    (text : List Char) : c ∉ encode text := by
  simp [encode, hquote, h]

/-! ## Backslashes in front of a quote -/

/-- The number of backslashes right at the end of some text. -/
def backslashes (front : List Char) : Nat := (front.reverse.takeWhile (· == '\\')).length

@[simp]
theorem backslashes_append_backslash (front : List Char) :
    backslashes (front ++ ['\\']) = backslashes front + 1 := by
  simp [backslashes]

theorem backslashes_append_of_ne {c : Char} (h : c ≠ '\\') (front : List Char) :
    backslashes (front ++ [c]) = 0 := by
  simp [backslashes, h]

/-- A character adds an even number of backslashes to those in front of it, or stops their row. -/
theorem Written.backslashes_even {c : Char} {written front : List Char} (h : Written c written)
    (hfront : backslashes front % 2 = 0) : backslashes (front ++ written) % 2 = 0 := by
  cases h with
  | plain hquote hbackslash hfeed hreturn => rw [backslashes_append_of_ne hbackslash]
  | @escaped letter hletter =>
    rw [List.append_cons]
    by_cases hbackslash : letter = '\\'
    · subst hbackslash
      simp only [backslashes_append_backslash]
      omega
    · rw [backslashes_append_of_ne hbackslash]

/-- Between two characters of the text the backslashes in front come in pairs. -/
theorem backslashes_flatMap_even (text : List Char) {front : List Char}
    (hfront : backslashes front % 2 = 0) :
    backslashes (front ++ text.flatMap encodeChar) % 2 = 0 := by
  induction text generalizing front with
  | nil => simpa using hfront
  | cons c text ih =>
    rw [List.flatMap_cons, ← List.append_assoc]
    exact ih ((written_encodeChar c).backslashes_even hfront)

/-- A character as it is written has no quote but behind a backslash. -/
theorem Written.front_of_quote {c : Char} {front back : List Char}
    (h : Written c (front ++ '"' :: back)) : front = ['\\'] := by
  generalize hwritten : front ++ '"' :: back = written at h
  cases h with
  | plain hquote hbackslash hfeed hreturn =>
    have hfront := List.append_eq_singleton_iff.mp hwritten
    simp [hquote.symm] at hfront
  | escaped hletter =>
    rcases List.append_eq_cons_iff.mp hwritten with ⟨rfl, hback⟩ | ⟨others, rfl, hothers⟩
    · simp at hback
    · rcases List.append_eq_singleton_iff.mp hothers.symm with ⟨rfl, -⟩ | ⟨-, hnil⟩
      · rfl
      · cases hnil

/-- Up to a quote inside a literal stand characters of the text and one backslash more. -/
theorem exists_before_of_quote {text front back : List Char}
    (h : text.flatMap encodeChar = front ++ '"' :: back) :
    ∃ before : List Char, front = before.flatMap encodeChar ++ ['\\'] := by
  induction text generalizing front with
  | nil => simp at h
  | cons c text ih =>
    rw [List.flatMap_cons] at h
    rcases List.append_eq_append_iff.mp h with ⟨between, hfront, hrest⟩ | ⟨between, hchar, hrest⟩
    · -- The quote stands behind this character.
      obtain ⟨before, hbefore⟩ := ih hrest
      refine ⟨c :: before, ?_⟩
      rw [hfront, hbefore, List.flatMap_cons, List.append_assoc]
    · rcases List.cons_eq_append_iff.mp hrest with ⟨rfl, hquote⟩ | ⟨others, rfl, hothers⟩
      · -- It would be the first of the next character, which no quote is.
        have hnext : text.flatMap encodeChar = [] ++ '"' :: back := hquote
        obtain ⟨before, hbefore⟩ := ih hnext
        simp at hbefore
      · refine ⟨[], ?_⟩
        have hwritten := written_encodeChar c
        rw [hchar] at hwritten
        exact hwritten.front_of_quote

/-- The backslashes in front of a quote inside a literal are odd in number. -/
theorem backslashes_odd_of_quote {text front back : List Char}
    (h : encode text = front ++ '"' :: back) (hfront : front ≠ []) (hback : back ≠ []) :
    backslashes front % 2 = 1 := by
  obtain ⟨first, inside, rfl⟩ := List.exists_cons_of_ne_nil hfront
  obtain ⟨others, last, rfl⟩ : ∃ others last, back = others ++ [last] :=
    ⟨_, _, (List.dropLast_concat_getLast hback).symm⟩
  have hencode : '"' :: (text.flatMap encodeChar ++ ['"'])
      = first :: ((inside ++ '"' :: others) ++ [last]) := by
    simpa [encode] using h
  obtain ⟨rfl, hbody⟩ := List.cons.inj hencode
  obtain ⟨hbody, -⟩ := List.append_inj' hbody rfl
  obtain ⟨before, rfl⟩ := exists_before_of_quote hbody
  have hopening : backslashes ['"'] % 2 = 0 := by decide
  have heven := backslashes_flatMap_even before hopening
  show backslashes ((['"'] ++ before.flatMap encodeChar) ++ ['\\']) % 2 = 1
  rw [backslashes_append_backslash]
  omega

/-- What the literal of a text is like. -/
structure IsLiteral (literal text : String) : Prop where
  quotes : ∃ body, literal.toList = '"' :: body ++ ['"']
  no_feed : '\n' ∉ literal.toList
  no_return : '\r' ∉ literal.toList
  escaped : ∀ front back, literal.toList = front ++ '"' :: back → front ≠ [] → back ≠ [] →
    backslashes front % 2 = 1
  reads : unquote? literal = some text

theorem isLiteral_quote (text : String) : IsLiteral (quote text) text where
  quotes := ⟨text.toList.flatMap encodeChar, toList_quote text⟩
  no_feed := by
    rw [toList_quote]
    exact not_mem_encode (by decide) (fun c => (written_encodeChar c).no_lineEnd.1) _
  no_return := by
    rw [toList_quote]
    exact not_mem_encode (by decide) (fun c => (written_encodeChar c).no_lineEnd.2) _
  escaped := by
    rw [toList_quote]
    exact fun front back h => backslashes_odd_of_quote h
  reads := unquote?_quote text

end Text.Quoted

/-! ## Literals of fields -/

open Text.Quoted (quote IsLiteral isLiteral_quote quote_injective)

namespace ConstantPool

theorem selects_string :
    Selects .string (fun | .string text => some text | _ => none) Constant.string where
  some_iff found part := by cases found <;> simp
  kind_eq found hkind := by
    cases found with
    | string text => exact ⟨text, rfl⟩
    | _ => cases hkind

/-- A string constant is an entry that leads to its text. -/
theorem string_eq_ok_iff {pool : ConstantPool} {index : PoolIndex} {value : String} :
    pool.string index = .ok value
      ↔ ∃ text, pool.get index = .ok (.string text) ∧ pool.utf8 text = .ok value := by
  rw [string, bind_eq_ok_iff]
  exact exists_congr fun text => and_congr_left fun _ => selects_string.expect_eq_ok_iff

end ConstantPool

namespace Field

/-- The string that a field starts with, told by the pool alone. -/
def StartsWith (field : Field) (file : ClassFile) (value : String) : Prop :=
  ∃ index, field.constantValue? = some index ∧ file.pool.string index = .ok value

/-- A field that starts with a string has the literal of that string. -/
theorem StartsWith.literal_eq {field : Field} {file : ClassFile} {value : String}
    (h : StartsWith field file value) : literal field file = some (.ok (some (quote value))) := by
  obtain ⟨index, hindex, hvalue⟩ := h
  obtain ⟨text, hget, hutf8⟩ := ConstantPool.string_eq_ok_iff.mp hvalue
  have hliteral : literalOf file.pool index = some (.ok (quote value)) := by
    rw [literalOf, hget]
    show (do return quote (← file.pool.utf8 text) : Rendering String) = _
    rw [hutf8]
    rfl
  rw [literal, hindex]
  show (do return some (← literalOf file.pool index) : Rendering (Option String)) = _
  rw [hliteral]
  rfl

/-- What is written for a text stands between quotes, keeps to one line, has an odd number of
backslashes in front of every quote inside, and reads back as the text.  So no two texts are written
alike, and of fields that start with strings the literal tells which string it is. -/
theorem literal_tells_string :
    (∀ text, IsLiteral (quote text) text) ∧ Function.Injective quote
      ∧ ∀ (field : Field) (file : ClassFile) (value : String), StartsWith field file value →
        ∃ written, literal field file = some (.ok (some written)) ∧ IsLiteral written value
          ∧ ∀ (other : Field) (otherFile : ClassFile) (otherValue : String),
            StartsWith other otherFile otherValue →
              literal other otherFile = some (.ok (some written)) → otherValue = value := by
  refine ⟨isLiteral_quote, quote_injective, fun field file value hvalue => ?_⟩
  refine ⟨quote value, hvalue.literal_eq, isLiteral_quote value, ?_⟩
  intro other otherFile otherValue hother hsame
  rw [hother.literal_eq] at hsame
  apply quote_injective
  exact Option.some.inj (Except.ok.inj (Option.some.inj hsame))

/-- A class with one text of a backslash, a quote and a line feed, and two strings of that text. -/
def sharedText : ClassFile where
  version := Version.java17
  pool := ConstantPool.ofList [.utf8 "\\\"\n", .string 1, .string 1]
  flags := Flags.ofWord 0x0021
  thisClass := 0
  superClass := none
  interfaces := []
  fields := []
  methods := []
  attributes := []

/-- A field that starts with the constant at an index. -/
def startingWith (index : PoolIndex) : Field :=
  ⟨Flags.ofWord 0x0019, 0, 0, [⟨0, .deprecated⟩, ⟨0, .constantValue index⟩]⟩

theorem literal_tells_string_sharedText :
    StartsWith (startingWith 2) sharedText "\\\"\n"
      ∧ StartsWith (startingWith 3) sharedText "\\\"\n"
      ∧ ∃ written, literal (startingWith 2) sharedText = some (.ok (some written))
        ∧ written = "\"\\\\\\\"\\n\"" ∧ IsLiteral written "\\\"\n"
        ∧ ∀ value, StartsWith (startingWith 3) sharedText value → value = "\\\"\n" := by
  have hsecond : StartsWith (startingWith 2) sharedText "\\\"\n" := ⟨2, rfl, rfl⟩
  have hthird : StartsWith (startingWith 3) sharedText "\\\"\n" := ⟨3, rfl, rfl⟩
  obtain ⟨written, hwritten, hliteral, htells⟩ :=
    literal_tells_string.2.2 (startingWith 2) sharedText _ hsecond
  have hquote : written = quote "\\\"\n" := by
    rw [hsecond.literal_eq] at hwritten
    exact (Option.some.inj (Except.ok.inj (Option.some.inj hwritten))).symm
  refine ⟨hsecond, hthird, written, hwritten, hquote.trans (by decide), hliteral, ?_⟩
  intro value hvalue
  exact htells _ _ value hvalue (hquote ▸ hthird.literal_eq)

end Field

end ClassFormat

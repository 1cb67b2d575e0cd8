import Disasm.Json.Value

/-!
# Reading JSON

A reader for all of JSON, character by character. The scanner forms tokens: marks, strings, and words,
which are numbers or literal names. The parser keeps the arrays and objects that are still open. `read`
runs both over a text, and `parse` reads a text that is one value.

`Reads` says that a text is read as a value wherever one is expected. For each kind of value there is a
lemma that says which text reads as it; blanks may stand between any two tokens.
-/

namespace Disasm.Json

/-- A JSON value. -/
inductive Datum where
  | null
  | bool (value : Bool)
  | number (value : Rat)
  | string (value : String)
  | array (items : List Datum)
  | object (members : List (String × Datum))

namespace Datum

/-- The first member with a key. -/
def member? (key : String) : Datum → Option Datum
  | .object members => members.lookup key
  | _ => none

end Datum

/-! ## Words -/

/-- Digits without a leading zero, unless they are zero. -/
def isWhole (digits : List Char) : Bool :=
  digits = ['0'] || (digits ≠ [] && digits.head? ≠ some '0')

/-- The number of at least one digit. -/
def natural? (digits : List Char) : Option Nat :=
  if digits ≠ [] ∧ digits.all Char.isDigit then some (Nat.ofDigitChars 10 digits 0) else none

/-- The digits of a fraction, which may be missing, and what stands behind them. -/
def fraction? : List Char → Option (List Char × List Char)
  | '.' :: rest =>
    if (rest.takeWhile Char.isDigit).isEmpty then none
    else some (rest.takeWhile Char.isDigit, rest.dropWhile Char.isDigit)
  | rest => some ([], rest)

/-- The exponent at the end of a number, which may be missing. -/
def exponent? : List Char → Option Int
  | [] => some 0
  | char :: rest =>
    if char = 'e' ∨ char = 'E' then
      match rest with
      | '-' :: digits => (natural? digits).map fun value => -(value : Int)
      | '+' :: digits => (natural? digits).map Int.ofNat
      | digits => (natural? digits).map Int.ofNat
    else none

/-- The value of a number without a sign. -/
def unsigned? (chars : List Char) : Option Rat :=
  let whole := chars.takeWhile Char.isDigit
  if isWhole whole then
    (fraction? (chars.dropWhile Char.isDigit)).bind fun (fraction, rest) =>
      (exponent? rest).map fun exponent =>
        (Nat.ofDigitChars 10 (whole ++ fraction) 0 : Rat) *
          10 ^ (exponent - (fraction.length : Int))
  else none

def numeral? : List Char → Option Rat
  | '-' :: rest => (unsigned? rest).map fun value => -value
  | chars => unsigned? chars

/-- The value of a word: a literal name or a number. -/
def word? (chars : List Char) : Option Datum :=
  if chars = "null".toList then some .null
  else if chars = "true".toList then some (.bool true)
  else if chars = "false".toList then some (.bool false)
  else (numeral? chars).map .number

/-! ## Tokens -/

/-- What a text consists of. -/
inductive Token where
  | openArray
  | closeArray
  | openObject
  | closeObject
  | comma
  | colon
  /-- A value without parts. -/
  | scalar (value : Datum)

/-- The token of a single character. -/
def mark? : Char → Option Token
  | '[' => some .openArray
  | ']' => some .closeArray
  | '\x7b' => some .openObject
  | '\x7d' => some .closeObject
  | ',' => some .comma
  | ':' => some .colon
  | _ => none

/-- The blanks between tokens. -/
def spaces : List Char := [' ', '\t', '\n', '\r']

theorem mem_spaces {char : Char} :
    char ∈ spaces ↔ char = ' ' ∨ char = '\t' ∨ char = '\n' ∨ char = '\r' := by
  simp [spaces]

/-- Whether a character belongs to a word. All others end one. -/
def isWord (char : Char) : Bool :=
  (mark? char).isNone && char ∉ spaces && char ≠ '"'

/-- The meaning of a character behind a backslash. -/
def escaped? : Char → Option Char
  | '"' => some '"'
  | '\\' => some '\\'
  | '/' => some '/'
  | 'b' => some '\x08'
  | 'f' => some '\x0c'
  | 'n' => some '\n'
  | 'r' => some '\r'
  | 't' => some '\t'
  | _ => none

/-- Where the scanner stands. -/
inductive Scanner where
  | between
  | word (done : List Char)
  /-- Inside a string. -/
  | text (done : List Char)
  /-- Behind a backslash. -/
  | escape (done : List Char)
  /-- Before the last `missing + 1` digits of a code unit, the second one of a pair if there is a
  `lead`. -/
  | unit (done : List Char) (lead : Option Nat) (missing value : Nat)
  /-- Behind the first code unit of a pair. -/
  | pair (done : List Char) (lead : Nat)
  /-- Behind the backslash of the second code unit. -/
  | pairEscape (done : List Char) (lead : Nat)

namespace Scanner

/-- The first character of a token. -/
def start (char : Char) : List Token × Scanner :=
  match mark? char with
  | some token => ([token], .between)
  | none =>
    if char ∈ spaces then ([], .between)
    else if char = '"' then ([], .text [])
    else ([], .word [char])

/-- A code unit is a character, or half of one. -/
def finishUnit (done : List Char) (lead : Option Nat) (unit : Nat) : Option Scanner :=
  match lead with
  | none =>
    if 0xD800 ≤ unit ∧ unit < 0xDC00 then some (.pair done unit)
    else if 0xDC00 ≤ unit ∧ unit < 0xE000 then none
    else some (.text (done ++ [Char.ofNat unit]))
  | some lead =>
    if 0xDC00 ≤ unit ∧ unit < 0xE000 then
      some (.text (done ++ [Char.ofNat (0x10000 + (lead - 0xD800) * 0x400 + (unit - 0xDC00))]))
    else none

/-- The tokens that end with or before a character, and where the scanner stands behind it. -/
def step : Scanner → Char → Option (List Token × Scanner)
  | .between, char => some (start char)
  | .word done, char =>
    if isWord char then some ([], .word (done ++ [char]))
    else (word? done).map fun value => (.scalar value :: (start char).1, (start char).2)
  | .text done, char =>
    if char = '"' then some ([.scalar (.string (String.ofList done))], .between)
    else if char = '\\' then some ([], .escape done)
    else if char.toNat < 0x20 then none
    else some ([], .text (done ++ [char]))
  | .escape done, char =>
    if char = 'u' then some ([], .unit done none 3 0)
    else (escaped? char).map fun char => ([], .text (done ++ [char]))
  | .unit done lead missing value, char =>
    (Hex.value? char).bind fun digit =>
      match missing with
      | 0 => (finishUnit done lead (16 * value + digit)).map (([], ·))
      | missing + 1 => some ([], .unit done lead missing (16 * value + digit))
  | .pair done lead, char => if char = '\\' then some ([], .pairEscape done lead) else none
  | .pairEscape done lead, char =>
    if char = 'u' then some ([], .unit done (some lead) 3 0) else none

/-- The tokens that end with the text. -/
def finish : Scanner → Option (List Token)
  | .between => some []
  | .word done => (word? done).map fun value => [.scalar value]
  | _ => none

end Scanner

/-! ## Values -/

/-- An array or object that is still open, with what has been read of it. -/
inductive Frame where
  | array (done : List Datum)
  | object (done : List (String × Datum)) (key : String)

/-- Where the parser stands. -/
inductive Parser where
  | valueNext (frames : List Frame)
  /-- Behind the bracket that opens an array. -/
  | arrayOpen (frames : List Frame)
  /-- Behind the brace that opens an object. -/
  | objectOpen (frames : List Frame)
  | keyNext (frames : List Frame) (done : List (String × Datum))
  | colonNext (frames : List Frame) (done : List (String × Datum)) (key : String)
  /-- Behind an item. -/
  | inArray (frames : List Frame) (done : List Datum)
  /-- Behind a member. -/
  | inObject (frames : List Frame) (done : List (String × Datum))
  | finished (value : Datum)

namespace Parser

/-- Where the parser stands behind a value. -/
def complete (value : Datum) : List Frame → Parser
  | [] => .finished value
  | .array done :: frames => .inArray frames (done ++ [value])
  | .object done key :: frames => .inObject frames (done ++ [(key, value)])

/-- The first token of a value. -/
def start (frames : List Frame) : Token → Option Parser
  | .scalar value => some (complete value frames)
  | .openArray => some (.arrayOpen frames)
  | .openObject => some (.objectOpen frames)
  | _ => none

def step : Parser → Token → Option Parser
  | .valueNext frames, token => start frames token
  | .arrayOpen frames, .closeArray => some (complete (.array []) frames)
  | .arrayOpen frames, token => start (.array [] :: frames) token
  | .objectOpen frames, .closeObject => some (complete (.object []) frames)
  | .objectOpen frames, .scalar (.string key) => some (.colonNext frames [] key)
  | .keyNext frames done, .scalar (.string key) => some (.colonNext frames done key)
  | .colonNext frames done key, .colon => some (.valueNext (.object done key :: frames))
  | .inArray frames done, .comma => some (.valueNext (.array done :: frames))
  | .inArray frames done, .closeArray => some (complete (.array done) frames)
  | .inObject frames done, .comma => some (.keyNext frames done)
  | .inObject frames done, .closeObject => some (complete (.object done) frames)
  | _, _ => none

/-- The value of a whole text. -/
def finish : Parser → Option Datum
  | .finished value => some value
  | _ => none

end Parser

/-! ## Texts -/

/-- Reads the rest of a text. -/
def read (parser : Parser) (scanner : Scanner) : List Char → Option Datum
  | [] => (scanner.finish.bind (List.foldlM Parser.step parser)).bind Parser.finish
  | char :: rest =>
    (scanner.step char).bind fun (tokens, next) =>
      (tokens.foldlM Parser.step parser).bind fun parser => read parser next rest

def parse (text : String) : Option Datum :=
  read (.valueNext []) .between text.toList

/-- Texts that are values. -/
example : ["-0.5e+1", " [null, true,false ]\n", "\"\\ud83d\\ude00 \\/\"", "\x7b\"a\" : [ ] \x7d"].all
    fun text => (parse text).isSome := by
  decide +kernel

/-- Texts that are none. -/
example : ["", "01", "1.", "+1", "[1,]", "[1 2]", "nul", "\"\n\"", "\"\\ude00\"", "\x7b\"a\"\x7d",
    "[] []"].all fun text => (parse text).isNone := by
  decide +kernel

/-- Text in front of which a word ends. -/
def Ends (rest : List Char) : Prop :=
  ∀ char ∈ rest.head?, isWord char = false

theorem ends_nil : Ends [] := by
  intro char hchar
  cases hchar

theorem ends_cons {char : Char} {rest : List Char} (h : isWord char = false) :
    Ends (char :: rest) := by
  intro first hfirst
  rwa [← Option.some.inj hfirst]

/-- Blanks and marks end a word. -/
theorem ends_blanks {blanks : List Char} {char : Char} {rest : List Char}
    (hblanks : ∀ char ∈ blanks, char ∈ spaces) (hchar : isWord char = false) :
    Ends (blanks ++ char :: rest) := by
  cases blanks with
  | nil => exact ends_cons hchar
  | cons blank blanks =>
    refine ends_cons ?_
    rcases mem_spaces.mp (hblanks blank List.mem_cons_self) with rfl | rfl | rfl | rfl <;> rfl

/-- The parser expects a value inside of `frames`. -/
def Parser.Expects (parser : Parser) (frames : List Frame) : Prop :=
  ∀ token, token ≠ .closeArray → parser.step token = start frames token

theorem expects_valueNext (frames : List Frame) : (Parser.valueNext frames).Expects frames :=
  fun _ _ => rfl

theorem expects_arrayOpen (frames : List Frame) :
    (Parser.arrayOpen frames).Expects (.array [] :: frames) := by
  intro token htoken
  cases token with
  | closeArray => exact absurd rfl htoken
  | _ => rfl

/-- Text that is read as a value wherever a value is expected. -/
def Reads (chars : List Char) (value : Datum) : Prop :=
  ∀ ⦃parser : Parser⦄ ⦃frames : List Frame⦄ ⦃rest : List Char⦄, parser.Expects frames → Ends rest →
    read parser .between (chars ++ rest) = read (.complete value frames) .between rest

theorem Reads.parse_eq {text : String} {value : Datum} (h : Reads text.toList value) :
    parse text = some value := by
  have hread := h (expects_valueNext []) ends_nil
  rw [List.append_nil] at hread
  rw [parse, hread]
  rfl

/-! ## Tokens in a text -/

section Tokens

variable {parser : Parser} {char : Char} {rest : List Char}

theorem read_mark {token : Token} (h : mark? char = some token) :
    read parser .between (char :: rest) = (parser.step token).bind (read · .between rest) := by
  simp only [read, Scanner.step, Scanner.start, h, Option.bind_some, List.foldlM_cons,
    List.foldlM_nil, Option.bind_eq_bind, Option.bind_assoc]
  rfl

theorem read_mark_of_step {token : Token} {next : Parser} (h : mark? char = some token)
    (hstep : parser.step token = some next) :
    read parser .between (char :: rest) = read next .between rest := by
  rw [read_mark h, hstep, Option.bind_some]

theorem read_space (h : char ∈ spaces) :
    read parser .between (char :: rest) = read parser .between rest := by
  have hmark : mark? char = none := by
    rcases mem_spaces.mp h with rfl | rfl | rfl | rfl <;> rfl
  simp only [read, Scanner.step, Scanner.start, hmark, if_pos h]
  rfl

/-- Blanks between tokens mean nothing. -/
theorem read_spaces {blanks : List Char} (h : ∀ char ∈ blanks, char ∈ spaces) :
    read parser .between (blanks ++ rest) = read parser .between rest := by
  induction blanks with
  | nil => rfl
  | cons char blanks ih =>
    rw [List.cons_append, read_space (h char List.mem_cons_self),
      ih fun char hchar => h char (List.mem_cons_of_mem _ hchar)]

theorem start_of_isWord (h : isWord char = true) : Scanner.start char = ([], .word [char]) := by
  simp only [isWord, Bool.and_eq_true, Option.isNone_iff_eq_none, decide_eq_true_eq] at h
  simp only [Scanner.start, h, if_false]

theorem read_word {done word : List Char} {value : Datum} (hword : ∀ char ∈ word, isWord char = true)
    (hvalue : word? (done ++ word) = some value) (hends : Ends rest) :
    read parser (.word done) (word ++ rest) =
      (parser.step (.scalar value)).bind (read · .between rest) := by
  induction word generalizing done with
  | nil =>
    rw [List.append_nil] at hvalue
    cases rest with
    | nil =>
      simp only [List.append_nil, read, Scanner.finish, hvalue, Option.map_some, Option.bind_some,
        List.foldlM_cons, List.foldlM_nil, Option.bind_eq_bind, Option.bind_assoc]
    | cons char rest =>
      have hchar : ¬ isWord char = true := by
        rw [hends char rfl]
        exact Bool.false_ne_true
      simp only [List.nil_append, read, Scanner.step, if_neg hchar, hvalue, Option.map_some,
        Option.bind_some, List.foldlM_cons, Option.bind_eq_bind, Option.bind_assoc]
  | cons char word ih =>
    rw [List.cons_append, read, Scanner.step, if_pos (hword char List.mem_cons_self)]
    refine ih (fun char hchar => hword char (List.mem_cons_of_mem _ hchar)) ?_
    rwa [List.append_assoc]

end Tokens

/-! ## Values in a text -/

theorem Reads.word {word : List Char} {value : Datum} (hne : word ≠ [])
    (hword : word.all isWord = true) (hvalue : word? word = some value) : Reads word value := by
  intro parser frames rest hparser hends
  rw [List.all_eq_true] at hword
  cases word with
  | nil => exact absurd rfl hne
  | cons char word =>
    have hfirst : read parser .between (char :: (word ++ rest)) =
        read parser (.word [char]) (word ++ rest) := by
      rw [read, Scanner.step, start_of_isWord (hword char List.mem_cons_self)]
      rfl
    have hrest : ∀ char ∈ word, isWord char = true :=
      fun char hchar => hword char (List.mem_cons_of_mem _ hchar)
    rw [List.cons_append, hfirst, read_word hrest hvalue hends, hparser _ (by simp)]
    rfl

/-- Text that is scanned as a token, whatever stands behind it. -/
def Scans (chars : List Char) (token : Token) : Prop :=
  ∀ (parser : Parser) (rest : List Char), read parser .between (chars ++ rest) =
    (parser.step token).bind (read · .between rest)

theorem Scans.reads {chars : List Char} {value : Datum} (h : Scans chars (.scalar value)) :
    Reads chars value := by
  intro parser frames rest hparser hends
  rw [h, hparser _ (by simp)]
  rfl

/-! ## Arrays and objects in a text -/

section Parts

variable {α : Type} {between next : List α → Parser} {chars others blanks behind : List Char}
  {part : α} {parts : List α}

/-- Text that adds parts to an array or object which is open, each behind a comma. `between` is where
the parser stands behind a part. -/
def ReadsParts (between : List α → Parser) (chars : List Char) (parts : List α) : Prop :=
  ∀ ⦃done : List α⦄ ⦃rest : List Char⦄, Ends rest → Ends (chars ++ rest) ∧
    read (between done) .between (chars ++ rest) = read (between (done ++ parts)) .between rest

theorem readsParts_nil : ReadsParts between [] [] := by
  intro done rest hends
  rw [List.append_nil]
  exact ⟨hends, rfl⟩

theorem ReadsParts.cons (hcomma : ∀ done, (between done).step .comma = some (next done))
    (hblanks : ∀ char ∈ blanks, char ∈ spaces)
    (hpart : ∀ done rest, Ends rest →
      read (next done) .between (chars ++ rest) = read (between (done ++ [part])) .between rest)
    (hparts : ReadsParts between others parts) :
    ReadsParts between (',' :: (blanks ++ (chars ++ others))) (part :: parts) := by
  intro done rest hends
  obtain ⟨hothers, hread⟩ := @hparts (done ++ [part]) rest hends
  refine ⟨ends_cons (by decide), ?_⟩
  calc read (between done) .between (',' :: (blanks ++ (chars ++ others)) ++ rest)
    _ = read (between done) .between (',' :: (blanks ++ (chars ++ (others ++ rest)))) := by
      simp only [List.cons_append, List.append_assoc]
    _ = read (next done) .between (chars ++ (others ++ rest)) := by
      rw [read_mark_of_step rfl (hcomma done), read_spaces hblanks]
    _ = read (between (done ++ [part])) .between (others ++ rest) := hpart done _ hothers
    _ = read (between (done ++ part :: parts)) .between rest := by
      rw [hread, List.append_assoc]
      rfl

/-- An array or object with at least one part, from one bracket to the other. -/
theorem read_enclosed {parser opened closed : Parser} {opening closing : Char} {first last : Token}
    {rest : List Char} (hopening : mark? opening = some first) (hclosing : mark? closing = some last)
    (hfirst : parser.step first = some opened)
    (hlast : (between (part :: parts)).step last = some closed)
    (hblanks : ∀ char ∈ blanks, char ∈ spaces) (hbehind : ∀ char ∈ behind, char ∈ spaces)
    (hpart : ∀ rest, Ends rest →
      read opened .between (chars ++ rest) = read (between [part]) .between rest)
    (hparts : ReadsParts between others parts) :
    read parser .between
        (opening :: (blanks ++ (chars ++ (others ++ (behind ++ [closing])))) ++ rest) =
      read closed .between rest := by
  have hword : isWord closing = false := by simp [isWord, hclosing]
  have hends : Ends (behind ++ closing :: rest) := ends_blanks hbehind hword
  obtain ⟨hothers, hread⟩ := @hparts [part] _ hends
  calc read parser .between
        (opening :: (blanks ++ (chars ++ (others ++ (behind ++ [closing])))) ++ rest)
    _ = read parser .between
        (opening :: (blanks ++ (chars ++ (others ++ (behind ++ closing :: rest))))) := by
      simp only [List.cons_append, List.append_assoc, List.nil_append]
    _ = read opened .between (chars ++ (others ++ (behind ++ closing :: rest))) := by
      rw [read_mark_of_step hopening hfirst, read_spaces hblanks]
    _ = read (between [part]) .between (others ++ (behind ++ closing :: rest)) := hpart _ hothers
    _ = read (between (part :: parts)) .between (behind ++ closing :: rest) := hread
    _ = read closed .between rest := by
      rw [read_spaces hbehind, read_mark_of_step hclosing hlast]

end Parts

section Arrays

variable {chars others blanks behind : List Char} {value : Datum} {items : List Datum}

/-- Items behind the first one. -/
def ReadsItems (chars : List Char) (items : List Datum) : Prop :=
  ∀ frames, ReadsParts (.inArray frames) chars items

theorem ReadsItems.cons (hblanks : ∀ char ∈ blanks, char ∈ spaces) (hvalue : Reads chars value)
    (hitems : ReadsItems others items) :
    ReadsItems (',' :: (blanks ++ (chars ++ others))) (value :: items) := by
  intro frames
  refine .cons (fun done => rfl) hblanks (fun done rest hends => ?_) (hitems frames)
  exact hvalue (expects_valueNext (.array done :: frames)) hends

theorem reads_array_nil : Reads ['[', ']'] (.array []) := by
  intro parser frames rest hparser hends
  exact (read_mark_of_step rfl (hparser .openArray (by simp))).trans (read_mark_of_step rfl rfl)

theorem Reads.array (hblanks : ∀ char ∈ blanks, char ∈ spaces) (hvalue : Reads chars value)
    (hitems : ReadsItems others items) (hbehind : ∀ char ∈ behind, char ∈ spaces) :
    Reads ('[' :: (blanks ++ (chars ++ (others ++ (behind ++ [']']))))) (.array (value :: items)) := by
  intro parser frames rest hparser hrest
  refine read_enclosed rfl rfl (hparser .openArray (by simp)) rfl hblanks hbehind (fun rest hends => ?_)
    (hitems frames)
  exact hvalue (expects_arrayOpen frames) hends

end Arrays

section Objects

variable {chars others blanks behind : List Char} {key : String} {value : Datum}
  {members : List (String × Datum)}

/-- A member, wherever its key is expected. -/
def ReadsMember (chars : List Char) (key : String) (value : Datum) : Prop :=
  ∀ ⦃parser : Parser⦄ ⦃frames : List Frame⦄ ⦃done : List (String × Datum)⦄ ⦃rest : List Char⦄,
    parser.step (.scalar (.string key)) = some (.colonNext frames done key) → Ends rest →
      read parser .between (chars ++ rest) =
        read (.inObject frames (done ++ [(key, value)])) .between rest

theorem Scans.member (hkey : Scans chars (.scalar (.string key)))
    (hblanks : ∀ char ∈ blanks, char ∈ spaces) (hvalue : Reads others value) :
    ReadsMember (chars ++ ':' :: (blanks ++ others)) key value := by
  intro parser frames done rest hparser hends
  calc read parser .between (chars ++ ':' :: (blanks ++ others) ++ rest)
    _ = read parser .between (chars ++ ':' :: (blanks ++ (others ++ rest))) := by
      simp only [List.append_assoc, List.cons_append]
    _ = read (.colonNext frames done key) .between (':' :: (blanks ++ (others ++ rest))) := by
      rw [hkey, hparser, Option.bind_some]
    _ = read (.valueNext (.object done key :: frames)) .between (others ++ rest) := by
      rw [read_mark_of_step rfl rfl, read_spaces hblanks]
    _ = read (.inObject frames (done ++ [(key, value)])) .between rest :=
      hvalue (expects_valueNext _) hends

/-- Members behind the first one. -/
def ReadsMembers (chars : List Char) (members : List (String × Datum)) : Prop :=
  ∀ frames, ReadsParts (.inObject frames) chars members

theorem ReadsMembers.cons (hblanks : ∀ char ∈ blanks, char ∈ spaces)
    (hmember : ReadsMember chars key value) (hmembers : ReadsMembers others members) :
    ReadsMembers (',' :: (blanks ++ (chars ++ others))) ((key, value) :: members) := by
  intro frames
  exact .cons (fun done => rfl) hblanks (fun done rest hends => hmember rfl hends) (hmembers frames)

theorem reads_object_nil : Reads ['\x7b', '\x7d'] (.object []) := by
  intro parser frames rest hparser hends
  exact (read_mark_of_step rfl (hparser .openObject (by simp))).trans (read_mark_of_step rfl rfl)

theorem Reads.object (hblanks : ∀ char ∈ blanks, char ∈ spaces) (hmember : ReadsMember chars key value)
    (hmembers : ReadsMembers others members) (hbehind : ∀ char ∈ behind, char ∈ spaces) :
    Reads ('\x7b' :: (blanks ++ (chars ++ (others ++ (behind ++ ['\x7d'])))))
      (.object ((key, value) :: members)) := by
  intro parser frames rest hparser hrest
  refine read_enclosed rfl rfl (hparser .openObject (by simp)) rfl hblanks hbehind
    (fun rest hends => ?_) (hmembers frames)
  exact @hmember (.objectOpen frames) frames [] rest rfl hends

end Objects

end Disasm.Json

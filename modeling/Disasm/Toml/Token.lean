import Disasm.Text

/-!
# TOML tokens

A document is cut into quoted strings, marks, line ends, blanks, and runs of any other characters.
What a run means, a key or a number, depends on where it stands. A quote inside a run belongs to
it. Comments are dropped.
-/

namespace Disasm.Toml

/-- A piece of a document. -/
inductive Token where
  /-- A space or a tabulator. -/
  | blank (char : Char)
  | newLine
  /-- One of the characters `=`, `,`, `[`, `]`, and the braces. -/
  | mark (char : Char)
  /-- The text between quotes, with its escapes resolved. -/
  | quoted (text : String)
  /-- A run of characters without a meaning of their own. -/
  | bare (text : String)
  deriving DecidableEq

namespace Token

def isBlank : Token → Bool
  | .blank _ => true
  | _ => false

/-- Where the scanner is. -/
inductive Mode where
  | between
  | comment
  /-- Behind a double quote and some text. -/
  | basic (text : String)
  /-- Behind a single quote and some text. -/
  | literal (text : String)

/-- Whether a character may stand in a comment or a string: all but the control characters, of
which the tabulator is allowed. -/
def isPrintable (char : Char) : Bool :=
  char = '\t' || (0x20 ≤ char.toNat && char.toNat ≠ 0x7F)

/-- The character of an escape with a single letter. -/
def escape? : Char → Option Char
  | 'b' => some '\x08'
  | 't' => some '\t'
  | 'n' => some '\n'
  | 'f' => some '\x0c'
  | 'r' => some '\r'
  | 'e' => some '\x1b'
  | '"' => some '"'
  | '\\' => some '\\'
  | _ => none

def hexValue? (digits : List Char) : Option Nat :=
  digits.foldl (fun value digit =>
    match value, Hex.value? digit with
    | some value, some digit => some (16 * value + digit)
    | _, _ => none) (some 0)

/-- The character whose code point has the given digits. Surrogates are no characters. -/
def codePoint? (digits : List Char) : Option Char :=
  (hexValue? digits).bind fun value => if value.isValidChar then some (Char.ofNat value) else none

/-- The marks, of which each is a token. -/
def marks : List Char := ['=', ',', '[', ']', '\x7b', '\x7d']

/-- Whether the last token is a run that a quote continues. It does not continue a point. -/
def isInRun : List Token → Bool
  | .bare text :: _ => text.toList.getLast? ≠ some '.'
  | _ => false

/-- Adds a character to the run that is the last token, or starts a run with it. -/
def pushBare (char : Char) : List Token → List Token
  | .bare text :: done => .bare (text.push char) :: done
  | done => .bare char.toString :: done

/-- Scans the characters behind the tokens that are done, of which the last one stands first. -/
def scanFrom : Mode → List Char → (done : List Token) → Option (List Token)
  | .between, [], done | .comment, [], done => some done.reverse
  | .basic _, [], _ | .literal _, [], _ => none
  | .between, '\r' :: '\n' :: rest, done | .comment, '\r' :: '\n' :: rest, done
  | .between, '\n' :: rest, done | .comment, '\n' :: rest, done =>
    scanFrom .between rest (.newLine :: done)
  | .between, '#' :: rest, done => scanFrom .comment rest done
  | .between, '"' :: rest, done =>
    if isInRun done then scanFrom .between rest (pushBare '"' done)
    else scanFrom (.basic "") rest done
  | .between, '\'' :: rest, done =>
    if isInRun done then scanFrom .between rest (pushBare '\'' done)
    else scanFrom (.literal "") rest done
  | .between, ' ' :: rest, done => scanFrom .between rest (.blank ' ' :: done)
  | .between, '\t' :: rest, done => scanFrom .between rest (.blank '\t' :: done)
  | .between, '\r' :: _, _ => none
  | .between, char :: rest, done =>
    if marks.contains char then scanFrom .between rest (.mark char :: done)
    else scanFrom .between rest (pushBare char done)
  | .comment, char :: rest, done => if isPrintable char then scanFrom .comment rest done else none
  | .literal text, '\'' :: rest, done => scanFrom .between rest (.quoted text :: done)
  | .literal text, char :: rest, done =>
    if isPrintable char then scanFrom (.literal (text.push char)) rest done else none
  | .basic text, '"' :: rest, done => scanFrom .between rest (.quoted text :: done)
  | .basic text, '\\' :: 'x' :: a :: b :: rest, done =>
    match codePoint? [a, b] with
    | some char => scanFrom (.basic (text.push char)) rest done
    | none => none
  | .basic text, '\\' :: 'u' :: a :: b :: c :: d :: rest, done =>
    match codePoint? [a, b, c, d] with
    | some char => scanFrom (.basic (text.push char)) rest done
    | none => none
  | .basic text, '\\' :: 'U' :: a :: b :: c :: d :: e :: f :: g :: h :: rest, done =>
    match codePoint? [a, b, c, d, e, f, g, h] with
    | some char => scanFrom (.basic (text.push char)) rest done
    | none => none
  | .basic text, '\\' :: letter :: rest, done =>
    match escape? letter with
    | some char => scanFrom (.basic (text.push char)) rest done
    | none => none
  | .basic text, char :: rest, done =>
    if isPrintable char && char ≠ '\\' then scanFrom (.basic (text.push char)) rest done else none

/-- The tokens of a document, which may start with a byte order mark. -/
def scan (text : String) : Option (List Token) :=
  match text.toList with
  | '\ufeff' :: chars => scanFrom .between chars []
  | chars => scanFrom .between chars []

end Token

end Disasm.Toml

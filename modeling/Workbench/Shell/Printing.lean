import Workbench.Text.Decimal

set_option autoImplicit false

/-! # Printing

What `echo` and `printf` print. Escapes stand for control characters and, in octal, for bytes; the
conversions of a format take one argument each, and the format is used again while there are
arguments left. -/

namespace Workbench.Shell

/-- The bytes of a text. -/
def bytesOf (s : List Char) : ByteArray := (String.ofList s).toUTF8

/-- The byte of an octal numeral. -/
def octal (s : List Char) : ByteArray :=
  ⟨#[(s.foldl (fun n c => 8 * n + (c.toNat - '0'.toNat)) 0).toUInt8]⟩

/-- Whether a character is an octal digit. -/
def isOctal (c : Char) : Bool := '0' ≤ c && c ≤ '7'

/-- The character that a letter after a backslash stands for. -/
def escapeOf? : Char → Option Char
  | '\\' => some '\\'
  | 'a' => some '\x07'
  | 'b' => some '\x08'
  | 'f' => some '\x0c'
  | 'n' => some '\n'
  | 'r' => some '\r'
  | 't' => some '\t'
  | 'v' => some '\x0b'
  | _ => none

/-- The bytes of an escape, given by what follows the backslash, and the rest. -/
def readEscape (s : List Char) : ByteArray × List Char :=
  match s with
  | c :: rest =>
    match escapeOf? c with
    | some x => (bytesOf [x], rest)
    | none =>
      if isOctal c then
        let digits := (s.take 3).takeWhile isOctal
        (octal digits, s.drop digits.length)
      else (bytesOf ['\\', c], rest)
  | [] => (bytesOf ['\\'], [])

/-- A text with its escapes carried out, and whether `\c` has ended all printing. Octal numerals
    follow a zero. -/
def unescape : Nat → ByteArray → List Char → ByteArray × Bool
  | 0, out, _ => (out, false)
  | fuel + 1, out, s =>
    match s with
    | [] => (out, false)
    | '\\' :: 'c' :: _ => (out, true)
    | '\\' :: '0' :: rest =>
      let digits := (rest.take 3).takeWhile isOctal
      unescape fuel (out ++ octal digits) (rest.drop digits.length)
    | '\\' :: rest =>
      match rest with
      | c :: more =>
        match escapeOf? c with
        | some x => unescape fuel (out ++ bytesOf [x]) more
        | none => unescape fuel (out ++ bytesOf ['\\', c]) more
      | [] => (out ++ bytesOf ['\\'], false)
    | _ =>
      let plain := s.takeWhile (· ≠ '\\')
      unescape fuel (out ++ bytesOf plain) (s.drop plain.length)

/-- What `echo` prints. -/
def echo (args : List String) : ByteArray :=
  let (newline, args) := match args with
    | "-n" :: rest => (false, rest)
    | _ => (true, args)
  let text := (" ".intercalate args).toList
  let (out, ended) := unescape (text.length + 1) .empty text
  if newline && !ended then out ++ bytesOf ['\n'] else out

/-- Fill a text up to a width, from the left or the right. -/
def padTo (left : Bool) (filler : Char) (width : Nat) (s : List Char) : List Char :=
  let fill := List.replicate (width - s.length) filler
  if left then s ++ fill else fill ++ s

/-- The integer that an argument denotes, and whether it is one. A quote before a character makes it
    stand for its code. -/
def integerOf (arg : String) : Int × Bool :=
  match arg.toList with
  | [] => (0, true)
  | '\'' :: c :: _ => (c.toNat, true)
  | '"' :: c :: _ => (c.toNat, true)
  | '-' :: digits =>
    match Text.natural? digits with
    | some n => (-n, true)
    | none => (0, false)
  | s =>
    match Text.natural? s with
    | some n => (n, true)
    | none => (0, false)

/-- A conversion: its flags, its width, its precision and its letter. -/
structure Conversion where
  flags : List Char
  width : Nat
  precision : Option Nat
  letter : Char

/-- Read a conversion, after the percent sign. -/
def readConversion? (s : List Char) : Option (Conversion × List Char) :=
  let flags := s.takeWhile fun c => c == '-' || c == '0' || c == '+' || c == ' ' || c == '#'
  let s := s.drop flags.length
  let width := s.takeWhile Char.isDigit
  let s := s.drop width.length
  let (precision, s) := match s with
    | '.' :: rest =>
      let digits := rest.takeWhile Char.isDigit
      (some ((Text.natural? digits).getD 0), rest.drop digits.length)
    | _ => (none, s)
  match s with
  | letter :: rest => some (⟨flags, (Text.natural? width).getD 0, precision, letter⟩, rest)
  | [] => none

/-- The digits of an integer in a base. -/
def digitsOf (base : Nat) (upper : Bool) (n : Nat) : List Char :=
  (Nat.toDigits base n).map fun c => if upper then c.toUpper else c

/-- The number of integers that fit a word of 64 bits. -/
def wordSize : Int := 18446744073709551616

/-- An integer as a conversion writes it. -/
def Conversion.integer (k : Conversion) (n : Int) : List Char :=
  let digits := match k.letter with
    | 'o' => digitsOf 8 false (n % wordSize).toNat
    | 'x' => digitsOf 16 false (n % wordSize).toNat
    | 'X' => digitsOf 16 true (n % wordSize).toNat
    | 'u' => digitsOf 10 false (n % wordSize).toNat
    | _ => digitsOf 10 false n.natAbs
  let digits := padTo false '0' (k.precision.getD 1) digits
  let isSigned := k.letter == 'd' || k.letter == 'i'
  let sign :=
    if isSigned && n < 0 then ['-']
    else if isSigned && k.flags.contains '+' then ['+']
    else []
  if k.flags.contains '0' && !k.flags.contains '-' && k.precision.isNone then
    sign ++ padTo false '0' (k.width - sign.length) digits
  else padTo (k.flags.contains '-') ' ' k.width (sign ++ digits)

/-- What has been printed, the arguments left, and whether every argument was of its kind. -/
structure Printed where
  out : ByteArray
  args : List String
  valid : Bool
  /-- Whether a conversion took an argument, or would have. -/
  tookOne : Bool
  ended : Bool

/-- Carry out a conversion. -/
def Conversion.apply (k : Conversion) (p : Printed) : Printed :=
  let arg := p.args.head?.getD ""
  let p := { p with args := p.args.drop 1, tookOne := true }
  let cutText (s : List Char) : List Char := match k.precision with
    | some n => s.take n
    | none => s
  match k.letter with
  | 's' => { p with
    out := p.out ++ bytesOf (padTo (k.flags.contains '-') ' ' k.width (cutText arg.toList)) }
  | 'b' =>
    let (bytes, ended) := unescape (arg.length + 1) .empty arg.toList
    { p with out := p.out ++ bytes, ended := ended }
  | 'c' => { p with
    out := p.out ++ bytesOf (padTo (k.flags.contains '-') ' ' k.width (arg.toList.take 1)) }
  | _ =>
    let (n, valid) := integerOf arg
    { p with out := p.out ++ bytesOf (k.integer n), valid := p.valid && valid }

/-- Print a format once. -/
def printOnce : Nat → Printed → List Char → Printed
  | 0, p, _ => p
  | fuel + 1, p, s =>
    if p.ended then p
    else
      match s with
      | [] => p
      | '%' :: '%' :: rest => printOnce fuel { p with out := p.out ++ bytesOf ['%'] } rest
      | '%' :: rest =>
        match readConversion? rest with
        | some (k, rest) => printOnce fuel (k.apply p) rest
        | none => p
      | '\\' :: 'c' :: _ => { p with ended := true }
      | '\\' :: rest =>
        let (bytes, rest) := readEscape rest
        printOnce fuel { p with out := p.out ++ bytes } rest
      | _ =>
        let plain := s.takeWhile fun c => c ≠ '%' ∧ c ≠ '\\'
        printOnce fuel { p with out := p.out ++ bytesOf plain } (s.drop plain.length)

/-- Print a format until the arguments are used up. -/
def printAll (format : List Char) : Nat → Printed → Printed
  | 0, p => p
  | fuel + 1, p =>
    let p := printOnce (format.length + 1) { p with tookOne := false } format
    if p.args.isEmpty || !p.tookOne || p.ended then p else printAll format fuel p

/-- What `printf` prints, and whether every argument was of the kind that the format asks for. -/
def printf (format : String) (args : List String) : ByteArray × Bool :=
  let p := printAll format.toList (args.length + 1) ⟨.empty, args, true, false, false⟩
  (p.out, p.valid)

end Workbench.Shell

import CursorMachine.Arm.Assembly
import CursorMachine.Text.Blank
import CursorMachine.Text.Numeral

/-!
# Assembly text that is read

What a text says by the rules of the assembly language. `Line.text` spells lines; `readAll?` reads
them by tables of its own: the names of registers and conditions, the mnemonics with what each of
them takes, and the forms of operands and addresses. It knows nothing of `Line.text`, so that both
can be checked against each other (`Proofs/Lowering/Spelling.lean`).

A line is cut into *lexemes* first. Signs stand for themselves, blanks separate, and what is left
are words. What a label was made for is not in the text, so every label is read as a name.
-/

namespace CursorMachine.Arm

/-! ### Lexemes -/

/-- The characters that stand for themselves. -/
inductive Sign where
  | comma
  | hash
  | minus
  | bang
  | colon
  | opening
  | closing
  | listOpening
  | listClosing
  | remark
  deriving DecidableEq, Repr

/-- The sign that a character is. -/
def Sign.ofChar? : Char → Option Sign
  | ',' => some .comma
  | '#' => some .hash
  | '-' => some .minus
  | '!' => some .bang
  | ':' => some .colon
  | '[' => some .opening
  | ']' => some .closing
  | '{' => some .listOpening
  | '}' => some .listClosing
  | '@' => some .remark
  | _ => none

/-- A piece of a line. -/
inductive Lexeme where
  | sign (s : Sign)
  | word (cs : List Char)
  deriving DecidableEq, Repr

/-- A character that is part of a word. -/
def inWord (c : Char) : Bool :=
  !Text.isBlank c && (Sign.ofChar? c).isNone

/-- A word that has ended, kept with its last character first. -/
def Lexeme.ended (word : List Char) : List Lexeme :=
  if word.isEmpty then [] else [.word word.reverse]

/-- The lexemes after the characters of an open word. -/
def lexemesAfter (word : List Char) : List Char → List Lexeme
  | [] => Lexeme.ended word
  | c :: cs =>
    if inWord c then lexemesAfter (c :: word) cs
    else Lexeme.ended word ++ (Sign.ofChar? c).toList.map .sign ++ lexemesAfter [] cs

/-- The lexemes of a line. -/
def lexemes (cs : List Char) : List Lexeme :=
  lexemesAfter [] cs

/-! ### Operands -/

/-- The names of the registers. -/
def registerNames : List (String × Register) :=
  [("r0", .r0), ("r1", .r1), ("r2", .r2), ("r3", .r3), ("r4", .r4), ("r5", .r5), ("r6", .r6),
    ("r7", .r7), ("fp", .fp), ("sp", .sp), ("lr", .lr), ("pc", .pc)]

/-- The letters for the conditions, after a mnemonic. -/
def conditionNames : List (String × Condition) :=
  [("", .always), ("eq", .equal), ("ne", .unequal), ("lt", .less), ("gt", .greater), ("lo", .lower),
    ("hi", .higher)]

/-- Reads the name of a register. -/
def register? (word : List Char) : Option Register :=
  registerNames.lookup (.ofList word)

/-- Reads decimal digits. -/
def decimal? (word : List Char) : Option Nat :=
  Text.Numeral.Radix.decimal.value? 0 word

/-- Reads a constant with a sign, and gives what follows it. -/
def constant? : List Lexeme → Option (Int × List Lexeme)
  | .sign .minus :: .word n :: ls => (decimal? n).map fun n : Nat ↦ (-(n : Int), ls)
  | .word n :: ls => (decimal? n).map fun n : Nat ↦ ((n : Int), ls)
  | _ => none

/-- Reads the last operand of an arithmetic operation. -/
def operand? : List Lexeme → Option Operand
  | [.sign .hash, .word n] => (decimal? n).map fun n ↦ .immediate (.ofNat n)
  | [.word r] => (register? r).map .register
  | [.word r, .sign .comma, .word shift, .sign .hash, .word bits] => do
    guard (String.ofList shift = "lsl")
    return .shifted (← register? r) (← decimal? bits)
  | _ => none

/-- Reads the end of an address with a distance. -/
def afterDistance? (base : Register) : Int × List Lexeme → Option Address
  | (distance, [.sign .closing]) => some (.offset base distance)
  | (distance, [.sign .closing, .sign .bang]) => some (.preIndexed base distance)
  | _ => none

/-- Reads what follows the first register of an address. -/
def afterBase? (base : Register) : List Lexeme → Option Address
  | [.sign .closing] => some (.offset base 0)
  | [.sign .comma, .sign .minus, .word distance, .sign .closing] =>
    (register? distance).map (.below base)
  | .sign .comma :: .sign .hash :: ls => (constant? ls).bind (afterDistance? base)
  | .sign .closing :: .sign .comma :: .sign .hash :: ls =>
    (constant? ls).bind fun
      | (distance, []) => some (.postIndexed base distance)
      | _ => none
  | _ => none

/-- Reads the place of a load or a store. -/
def address? : List Lexeme → Option Address
  | .sign .opening :: .word base :: ls => (register? base).bind fun base ↦ afterBase? base ls
  | _ => none

/-! ### Statements -/

/-- Reads one register, and what follows it by another reader. -/
def oneRegister (f : Register → List Lexeme → Option Operation) :
    List Lexeme → Option Operation
  | .word r :: .sign .comma :: ls => do f (← register? r) ls
  | _ => none

/-- Reads a last register. -/
def lastRegister (f : Register → Operation) : List Lexeme → Option Operation
  | [.word r] => (register? r).map f
  | _ => none

/-- Reads a constant of 32 bits. -/
def lastConstant (f : Nat → Operation) : List Lexeme → Option Operation
  | [.sign .hash, .word n] => (decimal? n).map f
  | _ => none

/-- Reads the name of a label. -/
def lastName (f : Label → Operation) : List Lexeme → Option Operation
  | [.word name] => some (f (.entry (.ofList name)))
  | _ => none

/-- Reads a list of registers. -/
def registerList (f : Register → Register → Register → Operation) :
    List Lexeme → Option Operation
  | [.sign .listOpening, .word first, .sign .minus, .word last, .sign .comma, .word more,
      .sign .listClosing] => do
    return f (← register? first) (← register? last) (← register? more)
  | _ => none

/-- Reads the operands of a move. -/
def move? (c : Condition) : List Lexeme → Option Operation :=
  oneRegister fun rd ls ↦ (operand? ls).map (.move c rd)

/-- Reads the operands of arithmetic. -/
def arithmetic? (op : Arithmetic) (c : Condition) : List Lexeme → Option Operation :=
  oneRegister fun rd ↦ oneRegister fun rn ls ↦ (operand? ls).map (.arithmetic op c rd rn)

/-- Reads the operands of a load or a store. -/
def access? (f : Register → Address → Operation) : List Lexeme → Option Operation :=
  oneRegister fun r ls ↦ (address? ls).map (f r)

/-- A mnemonic that takes a condition. -/
def conditional (mnemonic : String) (f : Condition → List Lexeme → Option Operation) :
    List (String × (List Lexeme → Option Operation)) :=
  conditionNames.map fun (suffix, c) ↦ (mnemonic ++ suffix, f c)

/-- The mnemonics, with what they take. -/
def mnemonics : List (String × (List Lexeme → Option Operation)) :=
  conditional "mov" move? ++ conditional "add" (arithmetic? .add) ++
    conditional "sub" (arithmetic? .subtract) ++ conditional "rsb" (arithmetic? .reverseSubtract) ++
    conditional "str" (fun c ↦ access? (.store c)) ++
    conditional "strb" (fun c ↦ access? (.storeByte c)) ++
    conditional "b" (fun c ↦ lastName (.branch c)) ++
    [("movs", oneRegister fun rd ↦ lastRegister (.moveFlags rd)),
      ("movw", oneRegister fun rd ↦ lastConstant fun n ↦ .moveLow rd (.ofNat n)),
      ("movt", oneRegister fun rd ↦ lastConstant fun n ↦ .moveHigh rd (.ofNat n)),
      ("mul", oneRegister fun rd ↦ oneRegister fun rn ↦ lastRegister (.multiply rd rn)),
      ("umull", oneRegister fun low ↦ oneRegister fun high ↦ oneRegister fun rn ↦
        lastRegister (.multiplyLong low high rn)),
      ("lsr", oneRegister fun rd ↦ oneRegister fun rm ↦ lastConstant (.shiftRight rd rm)),
      ("cmp", oneRegister fun rn ls ↦ (operand? ls).map (.compare rn)),
      ("ldr", access? .load),
      ("bl", lastName .call),
      ("push", registerList .push),
      ("pop", registerList .pop),
      ("svc", lastConstant fun _ ↦ .service)]

/-- Reads an instruction to the assembler. -/
def directive? (ls : List Lexeme) : Option Directive :=
  if ls = lexemes ".syntax unified".toList then some .unifiedSyntax
  else if ls = lexemes ".arch armv7-a".toList then some .architecture
  else if ls = lexemes ".text".toList then some .code
  else match ls with
    | [.word word, .word name] =>
      if word = ".global".toList then some (.visible (.entry (.ofList name))) else none
    | _ => none

/-- Reads an operation or an instruction to the assembler. -/
def statement? : List Lexeme → Option Line
  | .word word :: ls =>
    (mnemonics.lookup (.ofList word)).elim ((directive? (.word word :: ls)).map .directive)
      fun f ↦ (f ls).map .operation
  | _ => none

/-- Reads a label with its colon. -/
def labelLine? : List Lexeme → Option Line
  | [.word name, .sign .colon] => some (.label (.entry (.ofList name)))
  | _ => none

/-- Reads a line. What is indented is a statement, and what is not is a label or a remark. -/
def Line.read? : List Char → Option Line
  | '@' :: ' ' :: text => some (.remark (.ofList text))
  | ' ' :: cs => statement? (lexemes cs)
  | cs => labelLine? (lexemes cs)

/-- Reads lines, each with a line feed at its end. -/
def readAll? (text : String) : Option (List Line) :=
  (Text.lines text.toList).dropLast.mapM Line.read?

end CursorMachine.Arm

namespace MarkerBus.Numeral

def wordSize : Nat :=
  18446744073709551616

inductive Defect where
  | noDigits
  | outOfRange
deriving DecidableEq, Repr

def isBlank (char : Char) : Bool :=
  char = ' ' ∨ char = '\t' ∨ char = '\n' ∨ char = '\x0b' ∨ char = '\x0c' ∨ char = '\r'

/-- The sign and the digits that a text leads with. -/
structure Lead where
  negative : Bool
  digits : List Char
deriving DecidableEq, Repr

def lead (text : String) : Lead :=
  match text.toList.dropWhile isBlank with
  | '-' :: rest => ⟨true, rest.takeWhile Char.isDigit⟩
  | '+' :: rest => ⟨false, rest.takeWhile Char.isDigit⟩
  | rest => ⟨false, rest.takeWhile Char.isDigit⟩

def magnitude (digits : List Char) : Nat :=
  digits.foldl (fun number digit => 10 * number + (digit.toNat - '0'.toNat)) 0

def Lead.value (lead : Lead) : Int :=
  if lead.negative then -(magnitude lead.digits : Int) else magnitude lead.digits

def signed (text : String) : Except Defect Int :=
  let found := lead text
  if found.digits = [] then
    .error .noDigits
  else if found.value < -(wordSize / 2 : Nat) ∨ (wordSize / 2 : Nat) ≤ found.value then
    .error .outOfRange
  else
    .ok found.value

def unsigned (text : String) : Except Defect Nat :=
  let found := lead text
  if found.digits = [] then
    .error .noDigits
  else if wordSize ≤ magnitude found.digits then
    .error .outOfRange
  else if found.negative then
    .ok ((wordSize - magnitude found.digits) % wordSize)
  else
    .ok (magnitude found.digits)

end MarkerBus.Numeral

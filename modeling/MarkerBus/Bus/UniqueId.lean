namespace MarkerBus.UniqueId

def hexDigit (value : Nat) : Char :=
  (value % 16).digitChar

/-- A number as so many hexadecimal digits, the most significant first. -/
def hex : Nat → Nat → List Char
  | 0, _ => []
  | width + 1, value => hex width (value / 16) ++ [hexDigit value]

/-- Four bits hold the version, 4, and two the variant, binary 10. -/
def ofRandom (high low : Nat) : String :=
  let groups :=
    [hex 8 (high / 0x100000000), hex 4 (high / 0x10000), hex 4 (0x4000 + high % 0x1000),
     hex 4 (0x8000 + low / 0x1000000000000 % 0x4000), hex 12 low]
  String.ofList (['-'].intercalate groups)

end MarkerBus.UniqueId

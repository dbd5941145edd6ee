import NoiseShader.Text.Printable

/-!
# Quoted text

Messages show names and values in quotes, with an escape for everything that
would not print: short escapes for the common controls, `\x` and two digits for
the other ASCII controls, and `\u` or `\U` with four or eight digits beyond.
-/

namespace NoiseShader.Text

def hexDigits (width value : Nat) : String :=
  let digits := Nat.toDigits 16 value
  String.ofList (List.replicate (width - digits.length) '0' ++ digits)

def escape (quote c : Char) : String :=
  if c = quote ∨ c = '\\' then String.ofList ['\\', c]
  else if isPrintable c then String.singleton c
  else
    match c.toNat with
    | 0x07 => "\\a"
    | 0x08 => "\\b"
    | 0x09 => "\\t"
    | 0x0a => "\\n"
    | 0x0b => "\\v"
    | 0x0c => "\\f"
    | 0x0d => "\\r"
    | code =>
      if code < 0x80 then "\\x" ++ hexDigits 2 code
      else if code < 0x10000 then "\\u" ++ hexDigits 4 code
      else "\\U" ++ hexDigits 8 code

/-- The text between double quotes. -/
def quoted (s : String) : String :=
  "\"" ++ String.join (s.toList.map (escape '"')) ++ "\""

/-- The character between single quotes. -/
def quotedChar (c : Char) : String :=
  "'" ++ escape '\'' c ++ "'"

end NoiseShader.Text

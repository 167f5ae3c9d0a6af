import BusDecode.Halt

/-!
# System information block

READSIB answers with sixteen bytes of text that hold four fields: family, NVM version, OCD version
and debug oscillator, with a separator after the first and before the last.
-/

set_option autoImplicit false

namespace BusDecode

namespace Updi

/-- The fields of a system information block. -/
structure SystemInfo where
  family : String
  nvmVersion : String
  ocdVersion : String
  debugOscillator : String
  deriving DecidableEq, Repr

namespace SystemInfo

/-- Number of bytes in a block. -/
def length : Nat := 16

/-- Blanks of the ASCII range: space, tab, line feed, vertical tab, form feed, carriage return. -/
def isBlank (c : Char) : Bool :=
  c = ' ' || (9 ≤ c.toNat && c.toNat ≤ 13)

/-- Text without the blanks at either end. -/
def trim (cs : List Char) : List Char :=
  ((cs.dropWhile isBlank).reverse.dropWhile isBlank).reverse

/-- Bytes of a named field as characters; a byte above 127 makes the field unreadable. -/
def ascii (field : String) (bytes : List UInt8) : Except DecodeError (List Char) :=
  if bytes.all (· < 128) then .ok (bytes.map fun b => Char.ofNat b.toNat)
  else .error (.nonAscii field)

/-- Reads the fields in order; the first unreadable one is the error. -/
def parse (sib : List UInt8) : Except DecodeError SystemInfo := do
  let family ← ascii "SIB family" (sib.take 7)
  let nvm ← ascii "SIB NVM version" ((sib.drop 8).take 3)
  let ocd ← ascii "SIB OCD version" ((sib.drop 11).take 3)
  let osc ← ascii "SIB debug oscillator" ((sib.drop 15).take 1)
  return ⟨String.ofList (trim family), String.ofList nvm, String.ofList ocd, String.ofList osc⟩

/-- One-line description of a block. -/
def describe (info : SystemInfo) : String :=
  "family=\"" ++ info.family ++ "\" nvmver=" ++ info.nvmVersion ++ " ocdver=" ++ info.ocdVersion ++
    " dbgosc=" ++ info.debugOscillator

end SystemInfo

end Updi

end BusDecode

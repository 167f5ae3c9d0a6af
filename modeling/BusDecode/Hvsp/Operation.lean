import BusDecode.Bits
import BusDecode.Hvsp.Command
import BusDecode.Numeral

/-!
# Interpreting instruction words

The word on the instruction line holds control lines, the word on the data line an operand.  With
the action lines XA at 0, 1 and 2 they load a byte of the address, a byte of the data or a command;
the strobes WR, OE and PAGEL belong to XA = 3, at most one at a time.
-/

set_option autoImplicit false

namespace BusDecode

namespace Hvsp

/-- The control lines of an instruction word, from bit 6 down:
XA1, XA0, BS1, WR, OE, BS2, PAGEL.  WR and OE are asserted when low. -/
structure Controls where
  /-- action -/
  xa : Nat
  /-- byte select: BS1 is its low bit, BS2 its high one -/
  bs : Nat
  wr : Bool
  oe : Bool
  pagel : Bool
  deriving DecidableEq, Repr

/-- What is wrong with an instruction. -/
inductive Fault where
  /-- a strobe without XA = 3, or two at once -/
  | strobes (names : String)
  /-- an address byte that does not exist -/
  | addressSelect (bs : Nat)
  /-- a data byte that does not exist -/
  | dataSelect (bs : Nat)
  /-- a command byte other than the low one -/
  | commandSelect
  /-- a command that is not known -/
  | unknownCommand (code : UInt8)
  /-- a strobe instruction; these are not interpreted -/
  | strobeAction
  deriving DecidableEq, Repr

/-- What an instruction does. -/
inductive Operation where
  | loadAddressLow (byte : UInt8)
  | loadAddressHigh (byte : UInt8)
  | loadDataLow (byte : UInt8)
  | loadDataHigh (byte : UInt8)
  | loadCommand (command : Command)
  deriving DecidableEq, Repr

/-- The registers of the device as the instructions have left them. -/
structure Context where
  /-- the command loaded last; none after one that is not known -/
  command : Option Command := none
  address : UInt16 := 0
  value : UInt16 := 0
  deriving DecidableEq, Repr

namespace Controls

/-- The control lines of an instruction word. -/
def ofWord (sii : UInt8) : Controls where
  xa := ((sii >>> 5) &&& 3).toNat
  bs := (((sii &&& 0x10) >>> 4) ||| (sii &&& 0x02)).toNat
  wr := sii &&& 0x08 = 0
  oe := sii &&& 0x04 = 0
  pagel := sii &&& 0x01 ≠ 0

/-- The strobes that break the rules, the first rule that is broken deciding. -/
def strobeFault (c : Controls) : Option String :=
  if c.xa ≠ 3 ∧ c.wr then some "WR" else
  if c.xa ≠ 3 ∧ c.oe then some "OE" else
  if c.xa ≠ 3 ∧ c.pagel then some "PAGEL" else
  match c.wr, c.oe, c.pagel with
  | true, true, _ => some "WR+OE"
  | true, _, true => some "WR+PAGEL"
  | _, true, true => some "OE+PAGEL"
  | _, _, _ => none

end Controls

namespace Fault

/-- Wording of a fault. -/
def message : Fault → String
  | strobes names => s!"Invalid {names}"
  | addressSelect bs => s!"LA invalid BS={bs}"
  | dataSelect bs => s!"LD invalid BS={bs}"
  | commandSelect => "Invalid BS"
  | unknownCommand _ => "CMD unknown"
  | strobeAction => "XA=3 not handled"

end Fault

namespace Operation

/-- How an operation is written. -/
def text : Operation → String
  | loadAddressLow byte => s!"LLA {Numeral.hexByte byte}"
  | loadAddressHigh byte => s!"LHA {Numeral.hexByte byte}"
  | loadDataLow byte => s!"LLD {Numeral.hexByte byte}"
  | loadDataHigh byte => s!"LHD {Numeral.hexByte byte}"
  | loadCommand command => s!"CMD {command.mnemonic}"

/-- Interprets an instruction word and its operand. -/
def interpret (sii sdi : UInt8) : Except Fault Operation :=
  let controls := Controls.ofWord sii
  match controls.strobeFault with
  | some names => .error (.strobes names)
  | none =>
    match controls.xa, controls.bs with
    | 0, 0 => .ok (loadAddressLow sdi)
    | 0, 1 => .ok (loadAddressHigh sdi)
    | 0, bs => .error (.addressSelect bs)
    | 1, 0 => .ok (loadDataLow sdi)
    | 1, 1 => .ok (loadDataHigh sdi)
    | 1, bs => .error (.dataSelect bs)
    | 2, 0 =>
      match Command.ofCode sdi with
      | some command => .ok (loadCommand command)
      | none => .error (.unknownCommand sdi)
    | 2, _ => .error .commandSelect
    | _, _ => .error .strobeAction

end Operation

namespace Context

/-- The registers after an operation. -/
def apply (c : Context) : Operation → Context
  | .loadAddressLow byte => { c with address := Bits.setLow c.address byte }
  | .loadAddressHigh byte => { c with address := Bits.setHigh c.address byte }
  | .loadDataLow byte => { c with value := Bits.setLow c.value byte }
  | .loadDataHigh byte => { c with value := Bits.setHigh c.value byte }
  | .loadCommand command => { c with command := some command }

/-- The registers after a fault: only a command that is not known changes them. -/
def applyFault (c : Context) : Fault → Context
  | .unknownCommand _ => { c with command := none }
  | _ => c

end Context

end Hvsp

end BusDecode

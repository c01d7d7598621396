import ToyKernel.Library.Buffer

/-!
Formatted printing of `utils/include/print.h` and `utils/print.cpp`. A printer returns the characters
that it puts, in order; a string is the bytes from its pointer on.
-/

namespace ToyKernel.Print

open Library

inductive PrintFault
  | outOfBounds | trap
deriving DecidableEq, Repr

def chars (text : List Char) : List UInt8 := text.map fun c => UInt8.ofNat c.toNat

def openBrace : UInt8 := 123

def closeBrace : UInt8 := 125

def printString : List UInt8 → Except PrintFault (List UInt8)
  | [] => .error .outOfBounds
  | c :: str =>
      if c = 0 then return []
      else do
        let rest ← printString str
        return c :: rest

def printNibble (val : UInt8) : List UInt8 := if val < 10 then [48 + val] else [97 + val - 10]

def printHex8 (val : UInt8) : List UInt8 := printNibble (val >>> 4) ++ printNibble (val &&& 0xf)

def printHex16 (val : UInt16) : List UInt8 := printHex8 (val >>> 8).toUInt8 ++ printHex8 val.toUInt8

def printHex32 (val : UInt32) : List UInt8 := printHex16 (val >>> 16).toUInt16 ++ printHex16 val.toUInt16

def printHex64 (val : UInt64) : List UInt8 := printHex32 (val >>> 32).toUInt32 ++ printHex32 val.toUInt32

def printHexInt32 (val : Int32) : List UInt8 := printHex32 val.toUInt32

/-- The digits are written from the end of the buffer to its start; the position is where the last of
them went. -/
def decimalLoop : Nat → Nat → List UInt8 → Except PrintFault (Nat × List UInt8)
  | 0, _, _ => .error .outOfBounds
  | position + 1, val, buffer => do
      let buffer ← poke .outOfBounds buffer position (UInt8.ofNat (val % 10 + 48))
      if val / 10 ≠ 0 then decimalLoop position (val / 10) buffer
      else return (position, buffer)

/-- Automatic variables are compiled to start with a fixed pattern. -/
def printDecimalImpl (numDigits val : Nat) : Except PrintFault (List UInt8) := do
  let buffer ← poke .outOfBounds (List.replicate (numDigits + 1) 170) numDigits 0
  let (position, buffer) ← decimalLoop numDigits val buffer
  printString (buffer.drop position)

def printDecimalUInt32 (val : UInt32) : Except PrintFault (List UInt8) := printDecimalImpl 10 val.toNat

def printDecimalUInt64 (val : UInt64) : Except PrintFault (List UInt8) := printDecimalImpl 20 val.toNat

def printDecimalInt32 (val : Int32) : Except PrintFault (List UInt8) :=
  if 0 ≤ val then printDecimalUInt32 val.toUInt32
  else if val = Int32.minValue then
    printString (chars ['-', '2', '1', '4', '7', '4', '8', '3', '6', '4', '8'] ++ [0])
  else do
    let rest ← printDecimalUInt32 (-val).toUInt32
    return chars ['-'] ++ rest

/-- The types that have a formatter. Small integers are promoted to 32 bits with a sign. -/
inductive Arg
  | char (c : UInt8)
  | uint8 (val : UInt8)
  | uint16 (val : UInt16)
  | uint32 (val : UInt32)
  | uint64 (val : UInt64)
  | unsignedLong (val : UInt32)
  | int8 (val : Int8)
  | int16 (val : Int16)
  | int32 (val : Int32)
  | hex8 (val : UInt8)
  | hex16 (val : UInt16)
  | hex32 (val : UInt32)
  | hex64 (val : UInt64)
  | hexInt32 (val : Int32)
  | string (str : List UInt8)
  | pointer (val : UInt32)
  | nullptr
  | bool (b : Bool)

def hexPrefix : List UInt8 := chars ['0', 'x']

def printFormatter : Arg → Except PrintFault (List UInt8)
  | .char c => return [c]
  | .uint8 val => printDecimalInt32 val.toUInt32.toInt32
  | .uint16 val => printDecimalInt32 val.toUInt32.toInt32
  | .uint32 val => printDecimalUInt32 val
  | .uint64 val => printDecimalUInt64 val
  | .unsignedLong val => printDecimalUInt32 val
  | .int8 val => printDecimalInt32 val.toInt32
  | .int16 val => printDecimalInt32 val.toInt32
  | .int32 val => printDecimalInt32 val
  | .hex8 val => return hexPrefix ++ printHex8 val
  | .hex16 val => return hexPrefix ++ printHex16 val
  | .hex32 val => return hexPrefix ++ printHex32 val
  | .hex64 val => return hexPrefix ++ printHex64 val
  | .hexInt32 val => return hexPrefix ++ printHexInt32 val
  | .string str => printString str
  | .pointer val => return hexPrefix ++ printHex32 val
  | .nullptr => printString (chars ['<', 'n', 'u', 'l', 'l', 'p', 't', 'r', '>'] ++ [0])
  | .bool b =>
      printString ((if b then chars ['t', 'r', 'u', 'e'] else chars ['f', 'a', 'l', 's', 'e']) ++ [0])

def printLast (val : Arg) : List UInt8 → Except PrintFault (List UInt8)
  | [] => .error .outOfBounds
  | c :: data =>
      if c = 0 then return []
      else if c = openBrace then do
        let shown ← printFormatter val
        match data with
        | [] => .error .outOfBounds
        | next :: data => do
            require (next = closeBrace) .trap
            let rest ← printLast val data
            return shown ++ rest
      else do
        let rest ← printLast val data
        return c :: rest

def printFirst (val : Arg) (others : List UInt8 → Except PrintFault (List UInt8)) :
    List UInt8 → Except PrintFault (List UInt8)
  | [] => .error .outOfBounds
  | c :: data =>
      if c = 0 then return []
      else if c = openBrace then do
        let shown ← printFormatter val
        match data with
        | [] => .error .outOfBounds
        | next :: data => do
            require (next = closeBrace) .trap
            let rest ← others data
            return shown ++ rest
      else do
        let rest ← printFirst val others data
        return c :: rest

def print : List Arg → List UInt8 → Except PrintFault (List UInt8)
  | [], data => printString data
  | [val], data => printLast val data
  | val :: next :: rest, data => printFirst val (print (next :: rest)) data

end ToyKernel.Print

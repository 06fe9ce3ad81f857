import OnePass.Text.Bytes

/-! # Symbol records -/
namespace OnePass.Elf

namespace SectionIndex
def undef : UInt16 := 0
def reserved : UInt16 := 0xff00
def abs : UInt16 := 0xfff1
/-- A tentative definition; its value is its alignment. -/
def common : UInt16 := 0xfff2
end SectionIndex

namespace Binding
def ownFile : UInt8 := 0
def global : UInt8 := 1
def weak : UInt8 := 2
end Binding

namespace SymbolType
def none : UInt8 := 0
def object : UInt8 := 1
def func : UInt8 := 2
def section_ : UInt8 := 3
def file : UInt8 := 4
end SymbolType

structure Symbol where
  nameOffset : UInt32 := 0
  info : UInt8 := 0
  other : UInt8 := 0
  index : UInt16 := 0
  value : UInt64 := 0
  size : UInt64 := 0
  deriving DecidableEq, Repr, Inhabited

namespace Symbol

def recordSize : Nat := 24

def makeInfo (binding type : UInt8) : UInt8 := (binding <<< 4) ||| (type &&& 0xf)

def bindingOf (info : UInt8) : UInt8 := info >>> 4

def binding (sym : Symbol) : UInt8 := bindingOf sym.info

def type (sym : Symbol) : UInt8 := sym.info &&& 0xf

def visibility (sym : Symbol) : UInt8 := sym.other &&& 3

def isLocal (sym : Symbol) : Bool := sym.binding == Binding.ownFile

def encode (sym : Symbol) : Bytes :=
  Bytes.ofUInt32 sym.nameOffset ++ [sym.info, sym.other] ++ Bytes.ofUInt16 sym.index ++
    Bytes.ofUInt64 sym.value ++ Bytes.ofUInt64 sym.size

def decode (data : Array UInt8) (offset : Nat) : Symbol where
  nameOffset := UInt32.ofNat (readLE data offset 4)
  info := UInt8.ofNat (readLE data (offset + 4) 1)
  other := UInt8.ofNat (readLE data (offset + 5) 1)
  index := UInt16.ofNat (readLE data (offset + 6) 2)
  value := UInt64.ofNat (readLE data (offset + 8) 8)
  size := UInt64.ofNat (readLE data (offset + 16) 8)

end Symbol

/-- One step of the hash: four bits to the left, the four that leave the low 28 folded back. -/
def hashStep (h : UInt32) (b : UInt8) : UInt32 :=
  let h := (h <<< 4) + b.toUInt32
  let high := h &&& 0xf0000000
  (h ^^^ (high >>> 24)) &&& ~~~high

def hashName (name : Bytes) : UInt32 := name.foldl hashStep 0

end OnePass.Elf

import Muduo.Lib.ByteOrder

/-!
`net/Endian.h`. The conversions take unsigned integers and their callers pass
signed ones: neither conversion changes a bit, so a `BitVec` stands for both.
-/

namespace Muduo

open Lib

def hostToNetwork64 (o : ByteOrder) (host64 : BitVec 64) : BitVec 64 := o.toBig (n := 8) host64
def hostToNetwork32 (o : ByteOrder) (host32 : BitVec 32) : BitVec 32 := o.toBig (n := 4) host32
def hostToNetwork16 (o : ByteOrder) (host16 : BitVec 16) : BitVec 16 := o.toBig (n := 2) host16

def networkToHost64 (o : ByteOrder) (net64 : BitVec 64) : BitVec 64 := o.fromBig (n := 8) net64
def networkToHost32 (o : ByteOrder) (net32 : BitVec 32) : BitVec 32 := o.fromBig (n := 4) net32
def networkToHost16 (o : ByteOrder) (net16 : BitVec 16) : BitVec 16 := o.fromBig (n := 2) net16

@[simp] theorem networkToHost32_hostToNetwork32 (o : ByteOrder) (x : BitVec 32) :
    networkToHost32 o (hostToNetwork32 o x) = x := o.fromBig_toBig (n := 4) x

@[simp] theorem networkToHost16_hostToNetwork16 (o : ByteOrder) (x : BitVec 16) :
    networkToHost16 o (hostToNetwork16 o x) = x := o.fromBig_toBig (n := 2) x

end Muduo

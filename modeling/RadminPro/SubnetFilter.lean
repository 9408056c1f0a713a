import RadminPro.BitPrefix
import RadminPro.TokenList

namespace RadminPro

open ByteCodec
open BitPrefix
open TokenList

/-!
# The allow-list of peers

`SubnetFilter` reads a list of address ranges and tests addresses against it.
Text becomes an address through `InetPtonA`, which is a parameter: for either
family a partial function from text to the bytes of an address.
-/

/-- The two address families. -/
inductive AddressFamily where
  | inet
  | inet6
  deriving Repr, DecidableEq

namespace AddressFamily

/-- The bytes of an address. -/
def byteCount : AddressFamily → Nat
  | inet => 4
  | inet6 => 16

/-- The bits of an address. -/
def maxPrefix : AddressFamily → Nat
  | inet => 32
  | inet6 => 128

end AddressFamily

/-- An address of a family, in network order. -/
structure AddressBytes (family : AddressFamily) where
  bytes : Bytes
  size : bytes.length = family.byteCount
  deriving DecidableEq

/-- The array an address of either family is kept in. -/
structure AddressArray where
  bytes : Bytes
  size : bytes.length = 16
  deriving DecidableEq

/-- `InetPtonA` for either family. -/
abbrev InetPton :=
  (family : AddressFamily) → Bytes → Option (AddressBytes family)

/-- Copy an address into a zeroed array. -/
def AddressArray.ofAddress
    {family : AddressFamily}
    (address : AddressBytes family) : AddressArray where
  bytes := address.bytes ++ List.replicate (16 - family.byteCount) 0
  size := by
    rw [List.length_append, address.size, List.length_replicate]
    cases family with
    | inet => rfl
    | inet6 => rfl

/-- What `c_str()` hands on: the text up to its first NUL. -/
def cString (text : Bytes) : Bytes :=
  text.takeWhile (· != 0)

/-- The address a text denotes; the older family is tried first. -/
def parseText
    (inetPtonA : InetPton)
    (ip : Bytes) : Option ((family : AddressFamily) × AddressBytes family) :=
  match inetPtonA .inet (cString ip) with
  | some v4 => some ⟨.inet, v4⟩
  | none =>
      match inetPtonA .inet6 (cString ip) with
      | some v6 => some ⟨.inet6, v6⟩
      | none => none

namespace SubnetFilter

/-- Parse an address into its family and array. -/
def parseAddr
    (inetPtonA : InetPton)
    (ip : Bytes) : Option (AddressFamily × AddressArray) :=
  (parseText inetPtonA ip).map fun parsed =>
    (parsed.1, AddressArray.ofAddress parsed.2)

/-- One byte of a masked address. -/
def maskByte (prefixBits bitStart : Nat) (byte : UInt8) : UInt8 :=
  if bitStart ≥ prefixBits then
    0
  else if bitStart + 8 > prefixBits then
    byte &&& highMask (prefixBits - bitStart)
  else
    byte

/-- The bytes from `bitStart` on, masked. -/
def maskBytes (prefixBits : Nat) : Nat → Bytes → Bytes
  | _, [] => []
  | bitStart, byte :: rest =>
      maskByte prefixBits bitStart byte ::
        maskBytes prefixBits (bitStart + 8) rest

@[simp] theorem length_maskBytes
    (prefixBits bitStart : Nat)
    (bytes : Bytes) :
    (maskBytes prefixBits bitStart bytes).length = bytes.length := by
  induction bytes generalizing bitStart with
  | nil => rfl
  | cons byte rest inductionHypothesis =>
      simp [maskBytes, inductionHypothesis]

/-- Clear the host bits of the bytes that belong to the family. -/
def maskInPlace
    (a : AddressArray)
    (family : AddressFamily)
    (prefixBits : Nat) : AddressArray where
  bytes :=
    maskBytes prefixBits 0 (a.bytes.take family.byteCount) ++
      a.bytes.drop family.byteCount
  size := by
    rw [List.length_append, length_maskBytes, ← List.length_append,
      List.take_append_drop, a.size]

/-- Do two arrays agree in their first bits? -/
def matchPrefix (a net : AddressArray) (prefixBits : Nat) : Bool :=
  let fullBytes := prefixBits / 8
  let remBits := prefixBits % 8
  if a.bytes.take fullBytes ≠ net.bytes.take fullBytes then
    false
  else if remBits ≠ 0 then
    a.bytes.getD fullBytes 0 &&& highMask remBits ==
      net.bytes.getD fullBytes 0 &&& highMask remBits
  else
    true

/-- A range of addresses. -/
structure Rule where
  family : AddressFamily
  net : AddressArray
  prefixBits : Nat
  deriving DecidableEq

end SubnetFilter

/-- The ranges that are allowed. -/
structure SubnetFilter where
  rules : List SubnetFilter.Rule := []

namespace SubnetFilter

/-- A decimal digit. -/
def isdigit (c : UInt8) : Bool :=
  48 ≤ c && c ≤ 57

/-- The blanks of the C locale. -/
def isspace (c : UInt8) : Bool :=
  c == 32 || (9 ≤ c && c ≤ 13)

/-- The number that decimal digits write. -/
def decimalValue (digits : Bytes) : Nat :=
  digits.foldl (fun value digit => value * 10 + (digit.toNat - 48)) 0

/-- `atoi` of decimal digits, which stops at `INT_MAX`. -/
def atoi (digits : Bytes) : Int :=
  min (decimalValue digits) (2 ^ 31 - 1)

/-- What ends an address. -/
def slash : UInt8 :=
  47

/-- The rule for an address with a prefix length; a negative one is a host. -/
def ruleOf
    (inetPtonA : InetPton)
    (addr : Bytes)
    (prefixLength : Int) : Option Rule :=
  match parseAddr inetPtonA addr with
  | none => none
  | some (family, a) =>
      let maxPrefix : Int := family.maxPrefix
      let prefixLength := if prefixLength < 0 then maxPrefix else prefixLength
      if prefixLength > maxPrefix then
        none
      else
        some ⟨family, maskInPlace a family prefixLength.toNat,
          prefixLength.toNat⟩

/-- The rule that a token writes. -/
def cidrRule (inetPtonA : InetPton) (cidr : Bytes) : Option Rule :=
  match cidr.dropWhile (· != slash) with
  | [] => ruleOf inetPtonA cidr (-1)
  | _ :: bits =>
      if bits.isEmpty then
        none
      else if !bits.all isdigit then
        none
      else
        ruleOf inetPtonA (cidr.takeWhile (· != slash)) (atoi bits)

/-- Add the rule of a token; a malformed one adds nothing. -/
def addCidr
    (inetPtonA : InetPton)
    (filter : SubnetFilter)
    (cidr : Bytes) : Bool × SubnetFilter :=
  match cidrRule inetPtonA cidr with
  | none => (false, filter)
  | some rule => (true, { rules := filter.rules ++ [rule] })

/-- Where the scan of a list stands. -/
structure ListScan where
  filter : SubnetFilter
  added : Nat := 0
  token : Bytes := []

/-- Add the token that is complete. -/
def flush (inetPtonA : InetPton) (scan : ListScan) : ListScan :=
  if scan.token.isEmpty then
    scan
  else
    match scan.filter.addCidr inetPtonA scan.token with
    | (true, filter) => { filter, added := scan.added + 1 }
    | (false, filter) => { filter, added := scan.added }

/-- A comma or a blank ends a token. -/
def isSeparator (c : UInt8) : Bool :=
  c == 44 || isspace c

/-- Read one more character of a list. -/
def feed (inetPtonA : InetPton) (scan : ListScan) (c : UInt8) : ListScan :=
  if isSeparator c then
    flush inetPtonA scan
  else
    { scan with token := scan.token ++ [c] }

/-- Add every rule of a list; the number of rules added is returned. -/
def addList
    (inetPtonA : InetPton)
    (filter : SubnetFilter)
    (list : Bytes) : Nat × SubnetFilter :=
  let scan := flush inetPtonA (list.foldl (feed inetPtonA) { filter })
  (scan.added, scan.filter)

/-- Is the address in one of the ranges?  Without rules nothing is. -/
def isAllowed
    (inetPtonA : InetPton)
    (filter : SubnetFilter)
    (ip : Bytes) : Bool :=
  if filter.rules.isEmpty then
    false
  else
    match parseAddr inetPtonA ip with
    | none => false
    | some (family, a) =>
        filter.rules.any fun r =>
          r.family == family && matchPrefix a r.net r.prefixBits

end SubnetFilter

end RadminPro

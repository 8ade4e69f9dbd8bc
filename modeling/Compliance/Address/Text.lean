import Compliance.Address
import Compliance.Text.Blank
import Compliance.Text.Digits

/-!
# The text of addresses and networks

Version 4 addresses are four decimal octets.  Version 6 addresses are eight
groups of hexadecimal digits; `::` stands for a run of zero groups, and the last
two groups may be written as a version 4 address.  Written addresses are in
lower case, with the first longest run of two or more zero groups shortened, and
with a version 4 tail where the address maps one.

## Main definitions

* `Address.read? s`, `Address.text a` — reading and writing an address.
* `Network.read s`, `Network.text n` — reading and writing a network, where a bare
  address is the block of that address alone.
-/

namespace Compliance

open Text

namespace Address

/-! ## Reading -/

/-- One decimal octet: at most three digits, and no zero in front of another. -/
def readOctet (cs : List Char) : Option (Nat × List Char) :=
  let (run, rest) := takeDigits cs
  let n := readNat run
  if run.isEmpty || 3 < run.length || (1 < run.length && run.head? == some '0') || 255 < n then none
  else some (n, rest)

/-- The rest of a text behind a point. -/
def afterPoint : List Char → Option (List Char)
  | '.' :: rest => some rest
  | _ => none

/-- Four octets with points between. -/
def readOctets (cs : List Char) : Option (Nat × List Char) := do
  let (a, cs) ← readOctet cs
  let (b, cs) ← readOctet (← afterPoint cs)
  let (c, cs) ← readOctet (← afterPoint cs)
  let (d, cs) ← readOctet (← afterPoint cs)
  return (((a * 256 + b) * 256 + c) * 256 + d, cs)

/-- The value of a hexadecimal digit of either case. -/
def hexValue (c : Char) : Nat :=
  if c.isDigit then c.toNat - '0'.toNat
  else if 'a' ≤ c then c.toNat - 'a'.toNat + 10
  else c.toNat - 'A'.toNat + 10

def isHex (c : Char) : Bool :=
  c.isDigit || ('a' ≤ c && c ≤ 'f') || ('A' ≤ c && c ≤ 'F')

/-- One group of one to four hexadecimal digits. -/
def readGroup (cs : List Char) : Option (Nat × List Char) :=
  let (run, rest) := cs.span isHex
  if run.isEmpty || 4 < run.length then none
  else some (run.foldl (fun n c => n * 16 + hexValue c) 0, rest)

/-- Groups read one after another, whether a version 4 tail ended them, and what follows. -/
structure Groups where
  values : List Nat
  embedded : Bool
  rest : List Char

/-- Up to `limit` groups, each but the first behind a colon.  A version 4 tail takes the place of
two groups; reading stops in front of what is no group. -/
def readGroups : Nat → Bool → List Char → Groups
  | 0, _, cs => ⟨[], false, cs⟩
  | limit + 1, isFirst, cs =>
    let body :=
      if isFirst then some cs
      else match cs with
        | ':' :: rest => some rest
        | _ => none
    match body with
    | none => ⟨[], false, cs⟩
    | some body =>
      match if 0 < limit then readOctets body else none with
      | some (bits, rest) => ⟨[bits / 65536, bits % 65536], true, rest⟩
      | none =>
        match readGroup body with
        | some (value, rest) =>
          let more := readGroups limit false rest
          ⟨value :: more.values, more.embedded, more.rest⟩
        | none => ⟨[], false, cs⟩

def ofGroups (groups : List Nat) : Address :=
  .v6 (BitVec.ofNat 128 (groups.foldl (fun n g => n * 65536 + g) 0))

/-- A version 6 address to the end of the text.  Fewer than eight groups need `::`, which stands
for at least one zero group. -/
def readV6 (cs : List Char) : Option Address :=
  let front := readGroups 8 true cs
  if front.values.length = 8 then
    if front.rest = [] then some (ofGroups front.values) else none
  else if front.embedded then none
  else
    match front.rest with
    | ':' :: ':' :: rest =>
      let back := readGroups (7 - front.values.length) true rest
      let zeros := 8 - front.values.length - back.values.length
      if back.rest = [] then
        some (ofGroups (front.values ++ List.replicate zeros 0 ++ back.values))
      else none
    | _ => none

/-- A version 4 address to the end of the text. -/
def readV4 (cs : List Char) : Option Address :=
  match readOctets cs with
  | some (bits, []) => some (.v4 (BitVec.ofNat 32 bits))
  | _ => none

/-- The address that a text denotes, without any blanks around it. -/
def read? (s : String) : Option Address :=
  readV4 s.toList <|> readV6 s.toList

/-! ## Writing -/

/-- Four octets with points between. -/
def octetsText (bits : Nat) : List Char :=
  natDigits ((bits >>> 24) % 256) ++ '.' :: natDigits ((bits >>> 16) % 256) ++
    '.' :: natDigits ((bits >>> 8) % 256) ++ '.' :: natDigits (bits % 256)

/-- The eight groups of a word, the highest first. -/
def groups (bits : BitVec 128) : List Nat :=
  [112, 96, 80, 64, 48, 32, 16, 0].map fun shift => (bits.toNat >>> shift) % 65536

/-- Groups in lower case with colons between. -/
def groupsText (gs : List Nat) : List Char :=
  [':'].intercalate (gs.map (Nat.toDigits 16))

/-- The number of zero groups at the start. -/
def zerosAhead (gs : List Nat) : Nat := (gs.takeWhile (· = 0)).length

/-- The length of the longest run of zero groups. -/
def longestZeros : List Nat → Nat
  | [] => 0
  | g :: gs => max (zerosAhead (g :: gs)) (longestZeros gs)

/-- The groups in front of the first run of at least `count` zero groups, and those behind its
first `count`. -/
def splitAtZeros (count : Nat) : List Nat → List Nat × List Nat
  | [] => ([], [])
  | g :: gs =>
    if count ≤ zerosAhead (g :: gs) then ([], (g :: gs).drop count)
    else
      let (front, back) := splitAtZeros count gs
      (g :: front, back)

/-- A version 6 address, its first longest run of zero groups shortened. -/
def v6Text (bits : BitVec 128) : List Char :=
  let gs := groups bits
  let count := longestZeros gs
  if gs.take 6 = [0, 0, 0, 0, 0, 65535] then
    "::ffff:".toList ++ octetsText (bits.toNat % (1 <<< 32))
  else if count < 2 then groupsText gs
  else
    let (front, back) := splitAtZeros count gs
    groupsText front ++ "::".toList ++ groupsText back

def text : Address → String
  | .v4 bits => String.ofList (octetsText bits.toNat)
  | .v6 bits => String.ofList (v6Text bits)

end Address

/-! ## Networks -/

/-- Why a text is no network. -/
inductive NetworkFault where
  /-- The part before the slash is no address. -/
  | address (text : String)
  /-- The part behind the slash is no number of bits. -/
  | bitCount (text : String)
  /-- The block would need more bits than the address has. -/
  | tooLong (length : Nat) (address : Address)
deriving DecidableEq, Repr

/-- The wording of a fault. -/
def NetworkFault.message : NetworkFault → String
  | .address written => "invalid network address '" ++ written ++ "'"
  | .bitCount written => "invalid prefix length '" ++ written ++ "'"
  | .tooLong length base =>
    "prefix length " ++ natText length ++ " exceeds " ++ natText base.width ++ " bits for " ++
      base.text

namespace Network

/-- A block of the given length around an address. -/
def make (address : Address) (length : Nat) : Except NetworkFault Network :=
  match of? address length with
  | some network => .ok network
  | none => .error (.tooLong length address)

/-- The largest number of bits that is read as one; not all up to it are numbers of an address. -/
def maxReadLength : Nat := 255

/-- The network that a text denotes: an address, with a slash and a length or alone.  Blanks
around either part are dropped. -/
def read (s : String) : Except NetworkFault Network :=
  let (front, back) := s.toList.span (· ≠ '/')
  match Address.read? (trim (String.ofList front)) with
  | none => .error (.address (String.ofList front))
  | some address =>
    match back with
    | [] => .ok (single address)
    | _ :: digits =>
      match readUpTo? maxReadLength (trim (String.ofList digits)).toList with
      | none => .error (.bitCount (String.ofList digits))
      | some length => make address length

/-- The text of a network, its length always written. -/
def text (n : Network) : String := n.address.text ++ "/" ++ natText n.length

end Network

end Compliance

import Shozee.Run.Addresses

/-!
# Canonical addresses

What the proxy makes of the text of an address before it asks the block list
(`apps/api/src/http/client-ip.ts`). A version 6 text is expanded by hand, and
one that stands for a version 4 address becomes its four octets.

`net.isIP` and `BlockList.check` are the platform's (`NodeNet`).
-/

namespace Shozee.Http

open Shozee.Run

/-- Texts by their characters. -/
abbrev Text := List Char

/-- The two kinds of addresses. -/
inductive IpFamily
  | ipv4
  | ipv6
deriving DecidableEq, Repr

/-- A rule of a block list. -/
inductive BlockRule
  | address (text : Text) (family : IpFamily)
  | subnet (network : Text) (bits : ℕ) (family : IpFamily)
deriving DecidableEq, Repr

/-- `check` is `none` where it throws. -/
structure NodeNet where
  isIP : Text → ℕ
  check : List BlockRule → Text → IpFamily → Option Bool

/-! ## The text inside

Blanks, brackets and the zone are taken off one after the other. -/

/-- `String.prototype.trim`. -/
def trim (text : Text) : Text :=
  ((text.dropWhile isWhiteSpace).reverse.dropWhile isWhiteSpace).reverse

/-- `text.replace(/^\[/, "")` -/
def dropOpening : Text → Text
  | '[' :: rest => rest
  | text => text

/-- `text.replace(/\]$/, "")` -/
def dropClosing (text : Text) : Text :=
  if text.getLast? = some ']' then text.dropLast else text

/-- What `.` does not match. -/
def isLineTerminator (c : Char) : Bool :=
  c = '\n' || c = '\r' || c = '\u2028' || c = '\u2029'

/-- `text.replace(/%.+$/, "")` -/
def dropZone : Text → Text
  | [] => []
  | c :: rest =>
      if c = '%' ∧ rest ≠ [] ∧ rest.any isLineTerminator = false then []
      else c :: dropZone rest

/-- An address without blanks, brackets and zone. -/
def stripIp (address : Text) : Text :=
  let trimmed := dropClosing (dropOpening (trim address))
  dropZone trimmed

/-! ## Groups

The parser of version 6 texts, with a dotted suffix rewritten first. -/

/-- Whether a text is one to four hexadecimal digits. -/
def HEX_GROUP (group : Text) : Bool :=
  group ≠ [] && group.length ≤ 4 && group.all fun c =>
    (hexDigitValue c).isSome

/-- `Number.parseInt(group, 16)`, of hexadecimal digits. -/
def parseInt16 (group : Text) : ℕ :=
  group.foldl (fun n c => 16 * n + (hexDigitValue c).getD 0) 0

/-- The groups of a part, if each is one. -/
def parseHexGroups (part : Text) : Option (List ℕ) :=
  if part = [] then some []
  else (part.splitOn ':').mapM fun group =>
    if HEX_GROUP group = true then some (parseInt16 group) else none

/-- Put a text before the first of some. -/
def before (text : Text) : List Text → List Text
  | [] => [text]
  | first :: rest => (text ++ first) :: rest

/-- `text.split("::")` -/
def splitCompression : Text → List Text
  | ':' :: ':' :: rest => [] :: splitCompression rest
  | c :: rest => before [c] (splitCompression rest)
  | [] => [[]]

/-- The match of `/^(.+):(\d{1,3})\.(\d{1,3})\.(\d{1,3})\.(\d{1,3})$/`: what
stands before the last colon, and the octets. -/
def DOTTED_IPV4_SUFFIX (address : Text) : Option (Text × List Text) :=
  let octets := ((address.reverse.takeWhile (· ≠ ':')).reverse).splitOn '.'
  match address.reverse.dropWhile (· ≠ ':') with
  | [] => none
  | _ :: start =>
      if start ≠ [] ∧ start.any isLineTerminator = false ∧
          octets.length = 4 ∧ ∀ octet ∈ octets, octet ≠ [] ∧
            octet.length ≤ 3 ∧ octet.all Char.isDigit = true then
        some (start.reverse, octets)
      else none

/-- `Number(octet)`, of digits. -/
def octetValue (octet : Text) : ℕ := Nat.ofDigitChars 10 octet 0

/-- `n.toString(16)` -/
def toString16 (n : ℕ) : Text := Nat.toDigits 16 n

/-- An address with dotted numbers at its end written as two groups. Numbers
above 255 are refused; zeros in front of one are not. -/
def rewriteDottedIpv4Suffix (address : Text) : Option Text :=
  match DOTTED_IPV4_SUFFIX address with
  | none => some address
  | some (start, texts) =>
      let octets := texts.map octetValue
      if octets.any (255 < ·) then none
      else
        let high := octets.getD 0 0 <<< 8 ||| octets.getD 1 0
        let low := octets.getD 2 0 <<< 8 ||| octets.getD 3 0
        some (start ++ ':' :: toString16 high ++ ':' :: toString16 low)

/-- The eight groups of an address, with the zeros that `::` stands for. -/
def parseIpv6Hextets (address : Text) : Option (List ℕ) := do
  let rewritten ← rewriteDottedIpv4Suffix address
  let parts := splitCompression rewritten
  let compressionCount := parts.length - 1
  if compressionCount > 1 then none
  else if compressionCount = 1 then
    let left ← parseHexGroups (parts.getD 0 [])
    let right ← parseHexGroups (parts.getD 1 [])
    let missing : ℤ := 8 - left.length - right.length
    if missing < 1 then none
    else some (left ++ List.replicate missing.toNat 0 ++ right)
  else
    let groups ← parseHexGroups rewritten
    if groups.length ≠ 8 then none else some groups

/-! ## Version 4 addresses inside

The forms that the proxy looks for, in its order, and the text that it asks
about. -/

/-- Two groups as an address of version 4. -/
def hextetsToIpv4 (high low : ℕ) : Text :=
  ['.'].intercalate ([high >>> 8 &&& 255, high &&& 255, low >>> 8 &&& 255,
    low &&& 255].map (Nat.toDigits 10))

/-- A group of an address. -/
def hextetAt (hextets : List ℕ) (index : ℕ) : ℕ := hextets.getD index 0

/-- The address of version 4 that one of version 6 carries, in the forms that
are looked for. -/
def embeddedIpv4 (address : Text) : Option Text := do
  let hextets ← parseIpv6Hextets address
  if hextets.length ≠ 8 then none
  else
    let g0 := hextetAt hextets 0
    let g1 := hextetAt hextets 1
    let g2 := hextetAt hextets 2
    let g3 := hextetAt hextets 3
    let g4 := hextetAt hextets 4
    let g5 := hextetAt hextets 5
    let g6 := hextetAt hextets 6
    let g7 := hextetAt hextets 7
    -- mapped: ::ffff:a.b.c.d
    if g0 = 0 ∧ g1 = 0 ∧ g2 = 0 ∧ g3 = 0 ∧ g4 = 0 ∧ g5 = 0xffff then
      some (hextetsToIpv4 g6 g7)
    -- translated: ::ffff:0:a.b.c.d
    else if g0 = 0 ∧ g1 = 0 ∧ g2 = 0 ∧ g3 = 0 ∧ g4 = 0xffff ∧ g5 = 0 then
      some (hextetsToIpv4 g6 g7)
    -- compatible: ::a.b.c.d except :: and ::1
    else if g0 = 0 ∧ g1 = 0 ∧ g2 = 0 ∧ g3 = 0 ∧ g4 = 0 ∧ g5 = 0 then
      let ipv4 := hextetsToIpv4 g6 g7
      if ipv4 = "0.0.0.0".toList ∨ ipv4 = "0.0.0.1".toList then none
      else some ipv4
    -- NAT64: 64:ff9b::/96
    else if g0 = 0x64 ∧ g1 = 0xff9b ∧ g2 = 0 ∧ g3 = 0 ∧ g4 = 0 ∧ g5 = 0 then
      some (hextetsToIpv4 g6 g7)
    -- 6to4: 2002::/16
    else if g0 = 0x2002 then some (hextetsToIpv4 g1 g2)
    else none

/-- The address that the rules are asked about: the one inside if there is one,
else the text itself if it can be read. -/
def tryCanonicalDestinationIp (net : NodeNet) (address : Text) : Option Text :=
  let stripped := stripIp address
  match embeddedIpv4 stripped with
  | some embedded => some embedded
  | none =>
      if net.isIP stripped = 4 then some stripped
      else if parseIpv6Hextets stripped ≠ none then some stripped
      else none

example : embeddedIpv4 "64:ff9b::0a00:1".toList = some "10.0.0.1".toList := by
  decide

end Shozee.Http

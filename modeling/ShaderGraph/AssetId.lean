/-! Identifiers of assets: 128 bits, written as hexadecimal digits in five groups. -/

namespace ShaderGraph

structure AssetId where
  bits : BitVec 128
  deriving DecidableEq

namespace AssetId

/-- The identifier of no asset. -/
def nil : AssetId := ⟨0⟩

def isNil (a : AssetId) : Bool := a == nil

/-- The 32 digits, most significant first. -/
def digits (a : AssetId) : List Char :=
  (List.range 32).map fun i => Nat.digitChar (a.bits.toNat / Nat.pow 16 (31 - i) % 16)

def text (a : AssetId) : String :=
  let ds := a.digits
  .ofList (ds.take 8 ++ '-' :: (ds.drop 8).take 4 ++ '-' :: (ds.drop 12).take 4 ++
    '-' :: (ds.drop 16).take 4 ++ '-' :: ds.drop 20)

instance : ToString AssetId := ⟨text⟩

def hexValue? (c : Char) : Option Nat :=
  if '0' ≤ c ∧ c ≤ '9' then some (c.toNat - '0'.toNat)
  else if 'a' ≤ c ∧ c ≤ 'f' then some (c.toNat - 'a'.toNat + 10)
  else if 'A' ≤ c ∧ c ≤ 'F' then some (c.toNat - 'A'.toNat + 10)
  else none

/-- Reads exactly 32 digits of either case. -/
def ofDigits? (cs : List Char) : Option AssetId :=
  if cs.length = 32 then
    (cs.foldlM (fun n c => (hexValue? c).map (n * 16 + ·)) 0).map fun n => ⟨BitVec.ofNat 128 n⟩
  else none

/-- Reads five groups of digits with hyphens between them. -/
def ofGroups? (cs : List Char) : Option AssetId :=
  match cs.drop 8, cs.drop 13, cs.drop 18, cs.drop 23 with
  | '-' :: _, '-' :: _, '-' :: _, '-' :: last =>
    ofDigits?
      (cs.take 8 ++ (cs.drop 9).take 4 ++ (cs.drop 14).take 4 ++ (cs.drop 19).take 4 ++ last)
  | _, _, _, _ => none

/-- Reads an identifier: 32 digits, or five groups that may stand in braces or after a
`urn:uuid:` mark. -/
def ofText? (s : String) : Option AssetId :=
  let cs := s.toList
  let mark := "urn:uuid:".toList
  if cs.length = 32 then ofDigits? cs
  else if cs.length = 36 then ofGroups? cs
  else if cs.length = 38 ∧ cs.head? = some '\x7b' ∧ cs.getLast? = some '\x7d' then
    ofGroups? cs.tail.dropLast
  else if cs.length = 45 ∧ cs.take 9 = mark then ofGroups? (cs.drop 9)
  else none

end AssetId

end ShaderGraph
